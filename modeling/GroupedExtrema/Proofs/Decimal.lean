import GroupedExtrema.Decimal.Conversion
import GroupedExtrema.Proofs.Ieee.Arithmetic

/-!
# Decimals as doubles

Reading decimals of one scale as doubles keeps their order, since both of its roundings do. Two
decimals may be read as one double, but never the other way round.

No scale reaches the limits of the format: the divisor lies between `2 ^ -512` and `2 ^ 512`, and
unscaled values are at most `2 ^ 127` in size. So a decimal that is not zero is read as a finite
number that is not zero, and zero is read as positive zero.
-/

namespace GroupedExtrema.Decimal

/-- Unscaled values are compared with their signs. -/
def Le (v w : Unscaled) : Prop := v.toInt ≤ w.toInt

/-! ### Ranges -/

theorem isNormal_double {k : ℤ} (hle : -1022 ≤ k) (hge : k ≤ 1023) :
    Format.binary64.IsNormal k :=
  Format.IsNormal.of_le_of_le (by decide) (by decide) hle hge

/-- Whole numbers other than zero are at least one in size. -/
theorem within_whole {n k : ℕ} (hpos : 0 < n) (hn : n ≤ 2 ^ k) (hk : k ≤ 1023) (negative : Bool) :
    (Ieee.ofRatio negative n 1 : Float64Value).Within negative 0 k := by
  refine Ieee.within_ofRatio (isNormal_double (by omega) (by omega))
    (isNormal_double (by omega) (by omega)) Nat.one_pos ?_ ?_ negative
  · rw [zpow_zero, Nat.cast_one, div_one]
    exact_mod_cast hpos
  · rw [zpow_natCast, Nat.cast_one, div_one]
    exact_mod_cast hn

theorem within_one : (Ieee.ofNat 1 : Float64Value).Within false 0 (0 : ℕ) :=
  within_whole Nat.one_pos (by decide) (by decide) false

/-- Every power of ten up to that of the largest scale is between one and `2 ^ 512`. -/
theorem within_power {n : ℕ} (hn : n ≤ 128) :
    (Ieee.mulPower (.ofNat 1) (.ofNat 10) n : Float64Value).Within false 0 512 := by
  have hten : (Ieee.ofNat 10 : Float64Value).Within false 0 (4 : ℕ) :=
    within_whole (by decide) (by decide) (by decide) false
  have hpower := within_one.mulPower hten (by decide) (by decide) (n := n)
    (isNormal_double (by omega) (by omega))
  exact hpower.mono (le_refl 0) (by omega) (isNormal_double (by decide) (by decide))
    (isNormal_double (by decide) (by decide))

/-- Divisors are positive, finite and not zero. -/
theorem within_divisor (scale : Int8) : (divisor scale).Within false (-512) 512 := by
  have hle := scale.le_toInt
  have hlt := scale.toInt_lt
  have hnormal : Format.binary64.IsNormal (-512) := isNormal_double (by decide) (by decide)
  have hnormal' : Format.binary64.IsNormal 512 := isNormal_double (by decide) (by decide)
  have hpower := within_power (n := scale.toInt.natAbs) (by omega)
  unfold divisor
  split
  case isTrue =>
      exact (within_one.div hpower hnormal hpower.normal_left).mono (by decide) (by decide) hnormal
        hnormal'
  case isFalse => exact hpower.mono (by decide) (le_refl 512) hnormal hnormal'

theorem natAbs_toInt_le (v : Unscaled) : v.toInt.natAbs ≤ 2 ^ 127 := by
  have hle := v.le_toInt
  have hlt := v.toInt_lt
  omega

/-- A value other than zero is rounded to one other than zero. -/
theorem within_ofInt {v : Unscaled} (h : v.toInt ≠ 0) :
    (Ieee.ofInt v.toInt : Float64Value).Within (decide (v.toInt < 0)) 0 (127 : ℕ) :=
  within_whole (Int.natAbs_pos.mpr h) (natAbs_toInt_le v) (by decide) _

/-- A decimal other than zero is read as a finite number other than zero. -/
theorem within_toDouble (scale : Int8) {v : Unscaled} (h : v.toInt ≠ 0) :
    (toDouble (divisor scale) v).Within (decide (v.toInt < 0)) (-512) 639 := by
  have hdiv := (within_ofInt h).div (within_divisor scale)
    (isNormal_double (by decide) (by decide)) (isNormal_double (by decide) (by decide))
  rw [Bool.bne_false] at hdiv
  exact hdiv

theorem toNat_ofInt_lt (v : Unscaled) :
    (Ieee.ofInt v.toInt : Float64Value).magnitude.toNat < Format.binary64.infinity := by
  by_cases h : v.toInt = 0
  · rw [h]
    decide
  · exact (within_ofInt h).lt_infinity

/-- Zero is read as positive zero. -/
theorem toDouble_zero (scale : Int8) {v : Unscaled} (h : v.toInt = 0) :
    toDouble (divisor scale) v = .zero := by
  have hdivisor := within_divisor scale
  have hnumerator : (Ieee.ofInt 0 : Float64Value).numerator = 0 := by decide
  rw [toDouble, Ieee.div_eq_ofRatio (toNat_ofInt_lt v) hdivisor.lt_infinity hdivisor.pos,
    hdivisor.negative_eq, h, hnumerator, Nat.zero_mul, Ieee.ofRatio_zero]
  rfl

/-- Decimals are read as finite numbers. -/
theorem toNat_toDouble_lt (scale : Int8) (v : Unscaled) :
    (toDouble (divisor scale) v).magnitude.toNat < Format.binary64.infinity := by
  by_cases h : v.toInt = 0
  · rw [toDouble_zero scale h]
    decide
  · exact (within_toDouble scale h).lt_infinity

/-- No decimal is read as negative zero. -/
theorem toDouble_ne_neg_zero (scale : Int8) (v : Unscaled) :
    toDouble (divisor scale) v ≠ .neg .zero := by
  by_cases h : v.toInt = 0
  · rw [toDouble_zero scale h]
    decide
  · intro heq
    have hpos := (within_toDouble scale h).pos
    rw [heq] at hpos
    exact absurd hpos (by decide)

/-! ### Order -/

/-- Decimals are read in order. -/
theorem toDouble_mono (scale : Int8) {v w : Unscaled} (h : Le v w) :
    (toDouble (divisor scale) v).Le (toDouble (divisor scale) w) :=
  have hdivisor := within_divisor scale
  Ieee.div_mono (toNat_ofInt_lt v) (toNat_ofInt_lt w) hdivisor.lt_infinity hdivisor.pos
    hdivisor.negative_eq (Ieee.ofInt_mono h)

end GroupedExtrema.Decimal
