import GroupedExtrema.Ieee.Basic

/-!
# Rounding to nearest

Arithmetic on floating-point values is exact arithmetic on fractions of natural numbers followed by
one rounding to the nearest magnitude, ties to the even one. A magnitude is built as
`steps * 2 ^ fractionBits + q`, where `q` is the rounded quotient and `steps` counts how far its
last place lies above the smallest one: a quotient that rounds up to the next power of two carries
into the exponent by itself, and one past the largest finite magnitude lands on infinity.
-/

namespace GroupedExtrema

/-- The natural number nearest to `num / den`, a tie going to the even neighbour. -/
def roundHalfEven (num den : Nat) : Nat :=
  let q := num / den
  let r := num % den
  if 2 * r < den then q
  else if den < 2 * r then q + 1
  else q + q % 2

/-- The integer part of the binary logarithm of the fraction `num / den`. -/
def floorLog2 (num den : Nat) : Int :=
  let d : Int := (num.log2 : Int) - den.log2
  if num * 2 ^ (-d).toNat < den * 2 ^ d.toNat then d - 1 else d

/-- The magnitude nearest to `num / den`; infinity where that is past the finite ones. -/
def Format.roundMagnitude (f : Format) (num den : Nat) : Nat :=
  if num = 0 then 0
  else
    let e := max (floorLog2 num den - f.fractionBits) f.minExponent
    let q := roundHalfEven (num * 2 ^ (-e).toNat) (den * 2 ^ e.toNat)
    min ((e - f.minExponent).toNat * 2 ^ f.fractionBits + q) f.infinity

namespace Ieee

variable {f : Format}

/-- The value of a sign nearest to `num / den`. -/
def ofRatio (negative : Bool) (num den : Nat) : Ieee f :=
  ofMagnitude negative (f.roundMagnitude num den)

/-- The value nearest to an integer. -/
def ofInt (i : Int) : Ieee f := ofRatio (decide (i < 0)) i.natAbs 1

/-- The value nearest to a natural number. -/
def ofNat (n : Nat) : Ieee f := ofRatio false n 1

/-- The rounded product. Infinity times zero is NaN. -/
def mul (x y : Ieee f) : Ieee f :=
  let negative := x.negative != y.negative
  if x.isNaN || y.isNaN then nan
  else if x.isInfinite || y.isInfinite then
    if x.isZero || y.isZero then nan else infinity negative
  else ofRatio negative (x.numerator * y.numerator) (x.denominator * y.denominator)

/-- The rounded quotient. Zero over zero and infinity over infinity are NaN. -/
def div (x y : Ieee f) : Ieee f :=
  let negative := x.negative != y.negative
  if x.isNaN || y.isNaN then nan
  else if x.isInfinite then
    if y.isInfinite then nan else infinity negative
  else if y.isInfinite then ofMagnitude negative 0
  else if y.isZero then
    if x.isZero then nan else infinity negative
  else ofRatio negative (x.numerator * y.denominator) (x.denominator * y.numerator)

instance : Mul (Ieee f) := ⟨mul⟩
instance : Div (Ieee f) := ⟨div⟩

/-- Multiplies `acc` by `base ^ n` with one rounded product per binary digit of `n` and one per
squaring. -/
def mulPower (acc base : Ieee f) (n : Nat) : Ieee f :=
  let acc := if n % 2 = 1 then acc * base else acc
  if h : n / 2 = 0 then acc else mulPower acc (base * base) (n / 2)
termination_by n
decreasing_by omega

end Ieee

end GroupedExtrema
