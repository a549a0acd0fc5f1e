import ObjectMarkup.Number.Whole
import ObjectMarkup.Text.Place
import ObjectMarkup.Text.Scan

/-!
# References

A reference `&name;` stands for one of five characters, a reference `&#…;` for the character with
that code point. Text and attribute values read references by rules of their own: text takes the
code point as an unsigned number, also with a plus sign or a capital marker for hexadecimal, and
takes zero; attribute values take none of these, and say in more detail what is wrong.
-/

set_option autoImplicit false

namespace ObjectMarkup

namespace Markup

namespace Reference

/-- The character that a named reference stands for. -/
def named (body : String) : Option Char :=
  if body = "lt" then some '<'
  else if body = "gt" then some '>'
  else if body = "amp" then some '&'
  else if body = "apos" then some '\''
  else if body = "quot" then some '"'
  else none

/-- The character with a code point, unless it is none or a surrogate. -/
def scalar (n : Nat) : Option Char :=
  if h : n.isValidChar then some (Char.ofNatAux n h) else none

/-! ### References in text -/

/-- Why a reference in text stands for nothing. -/
inductive TextFault where
  | unknownEntity (body : String)
  | invalidCharacter (body : String)
deriving DecidableEq, Repr

/-- The text of a fault in a run of text. -/
def TextFault.message : TextFault → String
  | .unknownEntity body => s!"unknown entity &{body};"
  | .invalidCharacter body => s!"invalid character reference &{body};"

/-- The character with the code point that a text spells in a base. -/
def numberedInText (base : Nat) (digits : List Char) : Option Char :=
  match Whole.read base .nat32 (String.ofList digits) with
  | .ok n => scalar n.toNat
  | .error _ => none

/-- The character that a reference in text stands for. -/
def inText (body : String) : Except TextFault Char :=
  match named body with
  | some c => .ok c
  | none =>
    match body.toList with
    | '#' :: code =>
      let character :=
        match code with
        | 'x' :: digits => numberedInText 16 digits
        | 'X' :: digits => numberedInText 16 digits
        | digits => numberedInText 10 digits
      match character with
      | some c => .ok c
      | none => .error (.invalidCharacter body)
    | _ => .error (.unknownEntity body)

/-! ### References in attribute values -/

/-- Why a character reference in a value stands for nothing. -/
inductive CodeFault where
  | sign
  | number (fault : Whole.Fault)
  | zero
  | notCharacter (code : Nat)
deriving DecidableEq, Repr

/-- The text of a fault in a character reference. -/
def CodeFault.message : CodeFault → String
  | .sign => "unexpected number sign"
  | .number fault => fault.message
  | .zero => "0x0 character is not permitted in XML"
  | .notCharacter code =>
    let shown := toString code
    s!"`{shown}` is not a valid codepoint"

/-- Why a value cannot be read. Ranges are bytes of the value. -/
inductive ValueFault where
  | unterminated (first last : Nat)
  | unrecognized (first last : Nat) (body : String)
  | character (fault : CodeFault)
deriving DecidableEq, Repr

/-- The text of a fault in the value of an attribute. -/
def ValueFault.message : ValueFault → String
  | .unterminated first last =>
    let range := toString first ++ ".." ++ toString last
    s!"Error while escaping character at range {range}: Cannot find ';' after '&'"
  | .unrecognized first last body =>
    let range := toString first ++ ".." ++ toString last
    s!"at {range}: unrecognized entity `{body}`"
  | .character fault => s!"invalid character reference: {fault.message}"

/-- The character with the code point that digits spell in a base. -/
def numberedInValue (base : Nat) (digits : List Char) : Except CodeFault Char :=
  if digits.head? = some '+' || digits.head? = some '-' then .error .sign
  else
    match Whole.read base .nat32 (String.ofList digits) with
    | .error fault => .error (.number fault)
    | .ok n =>
      if n = 0 then .error .zero
      else
        match scalar n.toNat with
        | some c => .ok c
        | none => .error (.notCharacter n.toNat)

/-- The character that a reference in a value stands for; its body takes the bytes `first` up to
`last`. -/
def inValue (first last : Nat) (body : List Char) : Except ValueFault Char :=
  match body with
  | '#' :: code =>
    let character :=
      match code with
      | 'x' :: digits => numberedInValue 16 digits
      | digits => numberedInValue 10 digits
    character.mapError .character
  | _ =>
    match named (String.ofList body) with
    | some c => .ok c
    | none => .error (.unrecognized first last (String.ofList body))

/-- Where a value is being read: among plain characters, or inside a reference that starts at a
byte, with the characters of its body so far, last first. -/
inductive ValueState where
  | plain
  | reference (start : Nat) (body : List Char)

/-- Replaces the references of a value that takes `size` bytes. A semicolon outside a reference is
a character like any other. -/
def valueScanner (size : Nat) : Scanner ValueState Char ValueFault where
  step
    | .plain, offset, c => if c = '&' then .ok ([], .reference offset []) else .ok ([c], .plain)
    | .reference start body, offset, c =>
      if c = ';' then
        (inValue (start + 1) offset body.reverse).map fun character => ([character], .plain)
      else if c = '&' then .error (.unterminated start size)
      else .ok ([], .reference start (c :: body))
  finish
    | .plain, _ => .ok []
    | .reference start _, _ => .error (.unterminated start size)

/-- A raw attribute value with its references replaced. -/
def replaceInValue (raw : String) : Except ValueFault String :=
  ((valueScanner raw.utf8ByteSize).run .plain 0 raw.toList).complete.map String.ofList

end Reference

end Markup

end ObjectMarkup
