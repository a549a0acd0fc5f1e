import ObjectMarkup.Markup.Reference
import ObjectMarkup.Text.Blank

/-!
# Attributes of a tag

The attributes of a tag are read from what follows its name: a key, an equals sign and a value
between quotes, with white space around each if one likes, and none needed between attributes. A key
is a character, whatever it is, and everything after it up to white space or an equals sign. A key
that comes again is a fault before its value is looked at. Positions are bytes of the content of the
tag.
-/

set_option autoImplicit false

namespace ObjectMarkup

namespace Markup

namespace Attribute

/-- Why the rest of a tag is not a list of attributes, and the byte of the tag's content at which
that shows. -/
inductive Fault where
  | expectedEquals (position : Nat)
  | expectedValue (position : Nat)
  | unquotedValue (position : Nat)
  | unclosedQuote (position : Nat) (quote : Char)
  | duplicated (position first : Nat)
deriving DecidableEq, Repr

/-- The text of a fault, with the position at which the tag went wrong. -/
def Fault.message : Fault → String
  | .expectedEquals n =>
    positioned n "attribute key must be directly followed by `=` or space"
  | .expectedValue n => positioned n "`=` must be followed by an attribute value"
  | .unquotedValue n => positioned n "attribute value must be enclosed in `\"` or `'`"
  | .unclosedQuote n quote =>
    let shown := String.singleton quote
    positioned n s!"missing closing quote `{shown}` in attribute value"
  | .duplicated n first =>
    positioned n ("duplicated attribute, previous declaration at position " ++ toString first)
where
  positioned (n : Nat) (what : String) : String := "position " ++ toString n ++ ": " ++ what

/-- An attribute as it stands in a tag, references and all. -/
structure Raw where
  name : String
  value : String
deriving DecidableEq, Repr

/-- Where in the list of attributes a scan is. Parts in progress are kept last character first. -/
inductive Phase where
  | between
  /-- Inside the key that starts at byte `start`. -/
  | key (start : Nat) (taken : List Char)
  | afterKey (start : Nat) (taken : List Char)
  | afterEquals (name : String)
  | value (name : String) (quote : Char) (taken : List Char)

/-- A scan in progress: its phase, and the keys read so far with the bytes they start at. -/
structure State where
  phase : Phase
  keys : List (String × Nat)

/-- Meets the equals sign after a key. -/
def meetEquals (keys : List (String × Nat)) (start : Nat) (taken : List Char) :
    Except Fault (List Raw × State) :=
  let name := String.ofList taken.reverse
  match keys.lookup name with
  | some first => .error (.duplicated start first)
  | none => .ok ([], ⟨.afterEquals name, (name, start) :: keys⟩)

/-- Reads the attributes of a tag. -/
def scanner : Scanner State Raw Fault where
  step s offset c :=
    match s.phase with
    | .between =>
      if isMarkupSpace c then .ok ([], s)
      else .ok ([], { s with phase := .key offset [c] })
    | .key start taken =>
      if c = '=' then meetEquals s.keys start taken
      else if isMarkupSpace c then .ok ([], { s with phase := .afterKey start taken })
      else .ok ([], { s with phase := .key start (c :: taken) })
    | .afterKey start taken =>
      if c = '=' then meetEquals s.keys start taken
      else if isMarkupSpace c then .ok ([], s)
      else .error (.expectedEquals offset)
    | .afterEquals name =>
      if c = '"' || c = '\'' then .ok ([], { s with phase := .value name c [] })
      else if isMarkupSpace c then .ok ([], s)
      else .error (.unquotedValue offset)
    | .value name quote taken =>
      if c = quote then
        .ok ([⟨name, String.ofList taken.reverse⟩], { s with phase := .between })
      else .ok ([], { s with phase := .value name quote (c :: taken) })
  finish s offset :=
    match s.phase with
    | .between => .ok []
    | .key _ _ => .error (.expectedEquals offset)
    | .afterKey _ _ => .error (.expectedEquals offset)
    | .afterEquals _ => .error (.expectedValue offset)
    | .value _ quote _ => .error (.unclosedQuote offset quote)

end Attribute

/-- A start tag: the characters between its angle brackets, without the stroke of a self-closing
tag. -/
structure Tag where
  content : String
deriving DecidableEq, Repr

namespace Tag

/-- The raw name of a tag: everything up to the first white space. -/
def name (t : Tag) : String :=
  String.ofList (t.content.toList.takeWhile fun c => !isMarkupSpace c)

/-- The attributes of a tag as they stand, up to the first fault. -/
def attributes (t : Tag) : Scan Attribute.Raw Attribute.Fault :=
  let rest := t.content.toList.dropWhile fun c => !isMarkupSpace c
  Attribute.scanner.run ⟨.between, []⟩ (t.content.utf8ByteSize - byteLength rest) rest

end Tag

end Markup

end ObjectMarkup
