/-!
# Binary floating point

Double and single precision numbers are their bits. `BinaryFormat` gives the layout of such bits,
`BinaryFormat.decode` the number they stand for, as a sign, a significand and a power of two, and
`BinaryFormat.round` the bits of the number nearest to a quotient of naturals, a tie going to the
even significand. All of it is exact arithmetic on naturals.
-/

set_option autoImplicit false

namespace ObjectMarkup

/-- A power of two. -/
def twoTo (n : Nat) : Nat := Nat.pow 2 n

/-- A power of ten. -/
def tenTo (n : Nat) : Nat := Nat.pow 10 n

/-- A binary interchange format: the bits of a significand, the leading one included, and those of
the exponent. -/
structure BinaryFormat where
  precision : Nat
  exponentBits : Nat
deriving DecidableEq

/-- What the bits of a format stand for. -/
inductive BinaryNumber where
  | nan
  | infinity (negative : Bool)
  /-- The number `significand · 2 ^ exponent`, or its negation. -/
  | finite (negative : Bool) (significand : Nat) (exponent : Int)
deriving DecidableEq

namespace BinaryFormat

/-- Double precision: 53 significant bits, 64 in all. -/
def double : BinaryFormat := ⟨53, 11⟩

/-- Single precision: 24 significant bits, 32 in all. -/
def single : BinaryFormat := ⟨24, 8⟩

/-- The bits of the number one binade up, the significand being the smallest. -/
def binade (f : BinaryFormat) : Nat := twoTo (f.precision - 1)

/-- The exponent field of infinities and NaNs. -/
def topExponent (f : BinaryFormat) : Nat := twoTo f.exponentBits - 1

/-- The exponent of the last place of the smallest numbers. -/
def leastExponent (f : BinaryFormat) : Int :=
  3 - (twoTo (f.exponentBits - 1) : Int) - f.precision

/-- The bits of positive infinity: the topmost exponent and no fraction. -/
def infinity (f : BinaryFormat) : Nat := f.topExponent * f.binade

/-- The bit in front of the exponent. -/
def signBit (f : BinaryFormat) : Nat := twoTo f.exponentBits * f.binade

/-- The bits of the quiet NaN without a sign or a payload. -/
def nan (f : BinaryFormat) : Nat := f.infinity + f.binade / 2

/-- Bits with the sign set or not. -/
def withSign (f : BinaryFormat) (negative : Bool) (magnitude : Nat) : Nat :=
  if negative then f.signBit + magnitude else magnitude

/-- What `bits` stand for. -/
def decode (f : BinaryFormat) (bits : Nat) : BinaryNumber :=
  let negative := decide (f.signBit ≤ bits)
  let magnitude := bits % f.signBit
  let field := magnitude / f.binade
  let fraction := magnitude % f.binade
  if field = f.topExponent then
    if fraction = 0 then .infinity negative else .nan
  else if field = 0 then .finite negative fraction f.leastExponent
  else .finite negative (f.binade + fraction) (f.leastExponent + (field - 1 : Nat))

/-- A quotient of naturals rounded to the nearest natural, a tie going to the even one. -/
def divideToEven (numerator denominator : Nat) : Nat :=
  let quotient := numerator / denominator
  let twiceRest := 2 * (numerator % denominator)
  if twiceRest < denominator then quotient
  else if denominator < twiceRest then quotient + 1
  else if quotient % 2 = 0 then quotient
  else quotient + 1

/-- `numerator / denominator` in units of `2 ^ exponent`, rounded to the nearest natural. -/
def inUnits (numerator denominator : Nat) (exponent : Int) : Nat :=
  if 0 ≤ exponent then divideToEven numerator (denominator * twoTo exponent.toNat)
  else divideToEven (numerator * twoTo (-exponent).toNat) denominator

/-- Whether `numerator / denominator` is below `2 ^ exponent`. -/
def below (numerator denominator : Nat) (exponent : Int) : Bool :=
  if 0 ≤ exponent then numerator < denominator * twoTo exponent.toNat
  else numerator * twoTo (-exponent).toNat < denominator

/-- The magnitude bits of the number nearest to `numerator / denominator`, a positive denominator
assumed. Counting units of the last place up from the start of a binade makes a significand that
rounds up to the next power of two carry into the exponent by itself. -/
def round (f : BinaryFormat) (numerator denominator : Nat) : Nat :=
  if numerator = 0 then 0
  else
    let guess : Int := numerator.log2 - denominator.log2
    let top := if below numerator denominator guess then guess else guess + 1
    let unit := max f.leastExponent (top - f.precision)
    let bits :=
      (unit - f.leastExponent).toNat * f.binade + inUnits numerator denominator unit
    min bits f.infinity

end BinaryFormat

/-- A double precision number, by its bits. -/
structure Double where
  bits : UInt64
deriving DecidableEq, Repr

/-- A single precision number, by its bits. -/
structure Single where
  bits : UInt32
deriving DecidableEq, Repr

namespace Double

/-- The number that the bits of a double stand for. -/
def number (d : Double) : BinaryNumber := BinaryFormat.double.decode d.bits.toNat

/-- Positive zero. -/
def zero : Double := ⟨0⟩

end Double

namespace Single

/-- The number that the bits of a single stand for. -/
def number (s : Single) : BinaryNumber := BinaryFormat.single.decode s.bits.toNat

/-- Positive zero. -/
def zero : Single := ⟨0⟩

end Single

namespace BinaryNumber

/-- Equality of numbers: a NaN equals nothing, and the two zeros are equal. Significands are
unique within a format, so other finite numbers are equal when their parts are. -/
def equals : BinaryNumber → BinaryNumber → Bool
  | .infinity a, .infinity b => a == b
  | .finite a m e, .finite b n k =>
    (m == 0 && n == 0) || (a == b && m == n && e == k)
  | _, _ => false

end BinaryNumber

end ObjectMarkup
