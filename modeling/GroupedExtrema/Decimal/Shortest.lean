import GroupedExtrema.Ieee.Basic

/-!
# Shortest decimals

A decimal reads back as a floating-point value when it lies in the interval of reals that round to
the value. `Ieee.shortest` returns a decimal of that interval with the fewest digits and, of these,
the one nearest to the value.

The search works on exact fractions. For one digit, two digits and so on it looks at the two
neighbours of the value on the grid of decimals with so many digits: if any decimal of the grid lies
in the interval, then one of these two does.
-/

namespace GroupedExtrema

/-- The number `digits * 10 ^ exponent`. -/
structure ScaledDecimal where
  digits : Nat
  exponent : Int
deriving DecidableEq

/-- Which of two decimals equally near to a value is taken. -/
inductive Tie where
  /-- The larger one. -/
  | up
  /-- The one whose last digit is even. -/
  | even
deriving DecidableEq

namespace ScaledDecimal

/-- Moves zeros at the end of the digits into the exponent. -/
def strip (d : ScaledDecimal) : ScaledDecimal :=
  if h : d.digits ≠ 0 ∧ d.digits % 10 = 0 then
    strip ⟨d.digits / 10, d.exponent + 1⟩
  else d
termination_by d.digits
decreasing_by exact Nat.div_lt_self (Nat.pos_of_ne_zero h.1) (by decide)

end ScaledDecimal

/-- Number of decimal digits of a natural number. -/
def digitCount (n : Nat) : Nat := (Nat.toDigits 10 n).length

/-- The integer part of the decimal logarithm of the fraction `num / den`. -/
def floorLog10 (num den : Nat) : Int :=
  if den ≤ num then (digitCount (num / den) : Int) - 1
  else -(digitCount ((den + num - 1) / num - 1) : Int)

/-- The reals that round to one magnitude, all over one denominator. -/
structure RoundingInterval where
  lower : Nat
  value : Nat
  upper : Nat
  den : Nat
  /-- Do the ends themselves round to the value? -/
  closed : Bool

namespace RoundingInterval

/-- Does `num / den` of the interval's denominator lie in the interval? -/
def contains (i : RoundingInterval) (num : Nat) : Bool :=
  if i.closed then i.lower ≤ num && num ≤ i.upper else i.lower < num && num < i.upper

/-- The interval with numerators and denominator scaled for the grid `10 ^ exponent`: a grid point
`c * 10 ^ exponent` is `c * den` over the scaled denominators. -/
def onGrid (i : RoundingInterval) (exponent : Int) : RoundingInterval :=
  let s := 10 ^ (-exponent).toNat
  { i with
    lower := i.lower * s
    value := i.value * s
    upper := i.upper * s
    den := i.den * 10 ^ exponent.toNat }

/-- The best grid point of the interval among the two neighbours of the value. -/
def nearest? (i : RoundingInterval) (tie : Tie) (exponent : Int) : Option ScaledDecimal :=
  let g := i.onGrid exponent
  let below := g.value / g.den
  let above := below + 1
  let low := ⟨below, exponent⟩
  let high := ⟨above, exponent⟩
  match g.contains (below * g.den), g.contains (above * g.den) with
  | false, false => none
  | true, false => some low
  | false, true => some high
  | true, true =>
    let down := g.value - below * g.den
    let up := above * g.den - g.value
    if down < up then some low
    else if up < down then some high
    else
      match tie with
      | .up => some high
      | .even => some (if below % 2 = 0 then low else high)

/-- Tries grids of more and more digits, the first one `10 ^ exponent`. -/
def search (i : RoundingInterval) (tie : Tie) : Nat → Int → ScaledDecimal
  | 0, exponent => ⟨(i.onGrid exponent).value / (i.onGrid exponent).den, exponent⟩
  | n + 1, exponent =>
    match i.nearest? tie exponent with
    | some d => d
    | none => search i tie n (exponent - 1)

end RoundingInterval

namespace Ieee

variable {f : Format}

/-- The reals that round to a finite value other than zero. The gap below a power of two is half as
wide as the one above it; the ends round to the value when its last bit is even. -/
def roundingInterval (x : Ieee f) : RoundingInterval :=
  let scale := 2 ^ (x.exponent - 2).toNat
  let gap := if x.fractionField = 0 ∧ 1 < x.exponentField then 1 else 2
  { lower := (4 * x.significand - gap) * scale
    value := 4 * x.significand * scale
    upper := (4 * x.significand + 2) * scale
    den := 2 ^ (2 - x.exponent).toNat
    closed := x.significand % 2 == 0 }

/-- The shortest decimal that reads back as the magnitude of a finite value; zero for zero. A
format with `fractionBits` fraction bits never needs more digits than that plus three. -/
def shortest (tie : Tie) (x : Ieee f) : ScaledDecimal :=
  if x.isZero then ⟨0, 0⟩
  else
    let i := x.roundingInterval
    (i.search tie (f.fractionBits + 3) (floorLog10 i.value i.den)).strip

end Ieee

end GroupedExtrema
