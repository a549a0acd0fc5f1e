import ObjectMarkup.Number.Decimal

/-!
# The shortest decimal text of a floating point number

A finite number stands for all reals that round to it. Of the decimals in that interval the text
shows one with the fewest digits, and of those the one nearest to the number itself, the greater one
if two are equally near. The text is positional: it never has an exponent, and no point unless a
digit follows.
-/

set_option autoImplicit false

namespace ObjectMarkup

namespace Shortest

/-- The reals that round to a positive number, in quarters of its last place: the number itself, how
far they reach to either side, and whether the ends belong to them. -/
structure Interval where
  middle : Nat
  below : Nat
  above : Nat
  closed : Bool
  /-- The quarter of the last place is `2 ^ exponent`. -/
  exponent : Int

/-- The interval of `significand · 2 ^ exponent`. Below a power of two the numbers lie twice as
close; ends round to an even significand. -/
def Interval.ofNumber (f : BinaryFormat) (significand : Nat) (exponent : Int) : Interval where
  middle := 4 * significand
  below := if significand = f.binade && f.leastExponent < exponent then 1 else 2
  above := 2
  closed := significand % 2 = 0
  exponent := exponent - 2

/-- A decimal `coefficient · 10 ^ exponent`. -/
structure Point where
  coefficient : Nat
  exponent : Int
deriving DecidableEq, Repr

/-- The decimal of exponent `k` in the interval that is nearest to its middle. Lengths are
multiplied by `scale`, and `unit` is the length of one step between decimals. -/
def Interval.pointAt (i : Interval) (k : Int) : Option Point :=
  let scale := twoTo i.exponent.toNat * tenTo (-k).toNat
  let unit := twoTo (-i.exponent).toNat * tenTo k.toNat
  let down := i.middle * scale / unit
  let toLower := i.middle * scale - down * unit
  let toUpper := unit - toLower
  let reaches (distance reach : Nat) : Bool :=
    distance < reach * scale || (i.closed && distance = reach * scale)
  let lowHit := 0 < down && reaches toLower i.below
  let highHit := reaches toUpper i.above
  if highHit && (!lowHit || toUpper ≤ toLower) then some ⟨down + 1, k⟩
  else if lowHit then some ⟨down, k⟩
  else none

/-- The first decimal in the interval on the grids of exponents `k`, `k - 1`, …, of which `steps`
are tried. -/
def Interval.search (i : Interval) : Nat → Int → Option Point
  | 0, _ => none
  | steps + 1, k =>
    match i.pointAt k with
    | some p => some p
    | none => i.search steps (k - 1)

/-- The decimal with the fewest digits that rounds to `significand · 2 ^ exponent`. The search
starts above the number, at a power of ten taken from its power of two, and the precision of the
format bounds how many digits it can need. -/
def point (f : BinaryFormat) (significand : Nat) (exponent : Int) : Point :=
  let top := (significand.log2 : Int) + 1 + exponent
  let k := top * 30103 / 100000 + 1
  ((Interval.ofNumber f significand exponent).search (f.precision / 3 + 6) k).getD ⟨0, 0⟩

/-- A decimal written out by position. -/
def Point.text (p : Point) : String :=
  let digits := Nat.toDigits 10 p.coefficient
  if 0 ≤ p.exponent then String.ofList (digits ++ List.replicate p.exponent.toNat '0')
  else
    let places := (-p.exponent).toNat
    let padded := List.replicate (places + 1 - digits.length) '0' ++ digits
    let whole := padded.length - places
    String.ofList (padded.take whole ++ ['.'] ++ padded.drop whole)

/-- The text of a number of a format. -/
def text (f : BinaryFormat) : BinaryNumber → String
  | .nan => "NaN"
  | .infinity negative => if negative then "-inf" else "inf"
  | .finite negative significand exponent =>
    let magnitude := if significand = 0 then "0" else (point f significand exponent).text
    if negative then "-" ++ magnitude else magnitude

end Shortest

/-- The shortest decimal text that reads back as the double. -/
def Double.text (d : Double) : String := Shortest.text .double d.number

/-- The shortest decimal text that reads back as the single. -/
def Single.text (s : Single) : String := Shortest.text .single s.number

/-- The double next to the number that a decimal text spells. -/
def Double.read (text : String) : Except Decimal.Fault Double :=
  (Decimal.read .double text).map fun bits => ⟨bits.toUInt64⟩

/-- The single next to the number that a decimal text spells. -/
def Single.read (text : String) : Except Decimal.Fault Single :=
  (Decimal.read .single text).map fun bits => ⟨bits.toUInt32⟩

end ObjectMarkup
