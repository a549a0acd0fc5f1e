/-!
# Whole numbers from text

`Whole.read` reads digits of a base, with a sign in front, into a range of integers. It reads from
the left and reports the first thing that goes wrong: a character that is no digit, or a digit that
takes the number out of the range.
-/

set_option autoImplicit false

namespace ObjectMarkup

namespace Whole

/-- Why a text is not a whole number of a range. -/
inductive Fault where
  | empty
  | invalidDigit
  | tooLarge
  | tooSmall
deriving DecidableEq, Repr

/-- The text of a fault in an integer literal. -/
def Fault.message : Fault → String
  | .empty => "cannot parse integer from empty string"
  | .invalidDigit => "invalid digit found in string"
  | .tooLarge => "number too large to fit in target type"
  | .tooSmall => "number too small to fit in target type"

/-- The value of an ASCII digit below `base`; letters of either case follow the digit nine. -/
def digit (base : Nat) (c : Char) : Option Nat :=
  let n :=
    if '0' ≤ c && c ≤ '9' then c.toNat - '0'.toNat
    else if 'a' ≤ c && c ≤ 'z' then c.toNat - 'a'.toNat + 10
    else if 'A' ≤ c && c ≤ 'Z' then c.toNat - 'A'.toNat + 10
    else base
  if n < base then some n else none

/-- A range of integers and whether its texts may carry a minus sign. -/
structure Range where
  least : Int
  greatest : Int
  signed : Bool

/-- The signed integers of 32 bits. -/
def Range.int32 : Range := ⟨-2147483648, 2147483647, true⟩

/-- The unsigned integers of 32 bits. -/
def Range.nat32 : Range := ⟨0, 4294967295, false⟩

/-- Adds digits to a number that is not negative. -/
def readUp (base : Nat) (range : Range) (n : Int) : List Char → Except Fault Int
  | [] => .ok n
  | c :: rest =>
    match digit base c with
    | none => .error .invalidDigit
    | some d =>
      if n * base + d ≤ range.greatest then readUp base range (n * base + d) rest
      else .error .tooLarge

/-- Adds digits to a number that is not positive. -/
def readDown (base : Nat) (range : Range) (n : Int) : List Char → Except Fault Int
  | [] => .ok n
  | c :: rest =>
    match digit base c with
    | none => .error .invalidDigit
    | some d =>
      if range.least ≤ n * base - d then readDown base range (n * base - d) rest
      else .error .tooSmall

/-- Reads a whole number of `range`. A sign alone is an invalid digit, and so is a minus sign where
the range has none. -/
def read (base : Nat) (range : Range) (text : String) : Except Fault Int :=
  match text.toList with
  | [] => .error .empty
  | ['+'] => .error .invalidDigit
  | ['-'] => .error .invalidDigit
  | '+' :: rest => readUp base range 0 rest
  | '-' :: rest =>
    if range.signed then readDown base range 0 rest else .error .invalidDigit
  | digits => readUp base range 0 digits

end Whole

end ObjectMarkup
