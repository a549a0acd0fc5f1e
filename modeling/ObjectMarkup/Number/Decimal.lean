import ObjectMarkup.Number.Binary

/-!
# Decimal text of floating point numbers

`Decimal.read` reads the usual spellings of a decimal number (digits with at most one point, an
exponent, infinities and NaN by name, case ignored) and rounds to the nearest number of a format.
-/

set_option autoImplicit false

namespace ObjectMarkup

namespace Decimal

/-- Why a text is not a decimal number. -/
inductive Fault where
  | empty
  | invalid
deriving DecidableEq, Repr

/-- The text of a fault in a decimal literal. -/
def Fault.message : Fault → String
  | .empty => "cannot parse float from empty string"
  | .invalid => "invalid float literal"

/-! ### Literals -/

/-- Whether a character is one of the ten decimal digits. -/
def isDigit (c : Char) : Bool := '0' ≤ c && c ≤ '9'

/-- The number that digits spell. -/
def ofDigits (ds : List Char) : Nat :=
  ds.foldl (fun n c => 10 * n + (c.toNat - '0'.toNat)) 0

/-- An unsigned decimal: `coefficient · 10 ^ exponent`, and how many digits the coefficient has,
leading zeros not counted. -/
structure Literal where
  coefficient : Nat
  digits : Nat
  exponent : Int

/-- The exponent part of a literal: nothing, or a letter e, a sign and at least one digit. -/
def readExponent : List Char → Option Int
  | [] => some 0
  | mark :: rest =>
    if mark = 'e' || mark = 'E' then
      let (negative, ds) :=
        match rest with
        | '-' :: ds => (true, ds)
        | '+' :: ds => (false, ds)
        | ds => (false, ds)
      if ds.isEmpty || !ds.all isDigit then none
      else some (if negative then -(ofDigits ds : Int) else ofDigits ds)
    else none

/-- An unsigned literal: digits around at most one point, at least one of them, and an exponent. -/
def readLiteral (cs : List Char) : Option Literal :=
  let whole := cs.takeWhile isDigit
  let (fraction, rest) :=
    match cs.dropWhile isDigit with
    | '.' :: more => (more.takeWhile isDigit, more.dropWhile isDigit)
    | more => ([], more)
  let digits := whole ++ fraction
  if digits.isEmpty then none
  else
    (readExponent rest).map fun e =>
      ⟨ofDigits digits, (digits.dropWhile (· == '0')).length, e - fraction.length⟩

/-- The magnitude bits of the number nearest to a literal. A literal out of the reach of every
format is not multiplied out. -/
def Literal.round (f : BinaryFormat) (l : Literal) : Nat :=
  if l.coefficient = 0 || l.digits + l.exponent < -400 then 0
  else if 400 < l.digits + l.exponent then f.infinity
  else f.round (l.coefficient * tenTo l.exponent.toNat) (tenTo (-l.exponent).toNat)

/-- The bits, sign included, that a text stands for. -/
def read (f : BinaryFormat) (text : String) : Except Fault Nat :=
  match text.toList with
  | [] => .error .empty
  | c :: rest =>
    let negative := c = '-'
    let body := if c = '-' || c = '+' then rest else c :: rest
    match readLiteral body with
    | some l => .ok (f.withSign negative (l.round f))
    | none =>
      let word := String.ofList (body.map Char.toLower)
      if word == "inf" || word == "infinity" then .ok (f.withSign negative f.infinity)
      else if word == "nan" then .ok (f.withSign negative f.nan)
      else .error .invalid

end Decimal

end ObjectMarkup
