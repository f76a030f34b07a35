import GroupedExtrema.Ieee.Rounding

/-!
# Decimals read as doubles

A decimal of scale `s` stands for its unscaled integer divided by `10 ^ s`. Reading it as a double
rounds twice: the integer is rounded first, and the rounded integer is divided by the double
`10 ^ s`. The power of ten is itself a rounded product, built by repeated squaring.
-/

namespace GroupedExtrema

/-- Unscaled decimal values, 128-bit two's complement. -/
abbrev Unscaled := BitVec 128

namespace Decimal

/-- The double by which decimals of a scale are divided. -/
def divisor (scale : Int8) : Float64Value :=
  let power := Ieee.mulPower (.ofNat 1) (.ofNat 10) scale.toInt.natAbs
  if scale < 0 then .ofNat 1 / power else power

/-- The double for an unscaled value under a divisor. -/
def toDouble (divisor : Float64Value) (v : Unscaled) : Float64Value :=
  .ofInt v.toInt / divisor

end Decimal

end GroupedExtrema
