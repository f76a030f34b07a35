import GroupedExtrema.Ieee.Basic

/-!
# The order of floating-point values

Values that are not NaN lie, by their keys, between the two infinities. The largest finite values
lie next to the infinities, so a value that is not the infinity of a sign is not beyond the largest
finite value of that sign either.
-/

namespace GroupedExtrema

/-- A format with at least one exponent bit and one fraction bit, so that it has finite values,
infinities and NaNs. -/
class Format.Proper (f : Format) : Prop where
  exponentBits_pos : 0 < f.exponentBits
  fractionBits_pos : 0 < f.fractionBits

instance : Format.Proper .binary32 := ⟨by decide, by decide⟩

instance : Format.Proper .binary64 := ⟨by decide, by decide⟩

namespace Format

/-- Above infinity there is room for all fraction fields. -/
theorem infinity_add (f : Format) : f.infinity + 2 ^ f.fractionBits = 2 ^ f.magnitudeBits := by
  have hpow : 1 ≤ 2 ^ f.exponentBits := Nat.one_le_two_pow
  rw [infinity, magnitudeBits, Nat.pow_add, ← Nat.succ_mul, Nat.succ_eq_add_one,
    Nat.sub_add_cancel hpow]

theorem infinity_lt (f : Format) : f.infinity < 2 ^ f.magnitudeBits := by
  have := f.infinity_add
  have := Nat.two_pow_pos f.fractionBits
  omega

theorem infinity_pos (f : Format) [h : f.Proper] : 0 < f.infinity := by
  have hpow : 1 < 2 ^ f.exponentBits := Nat.one_lt_two_pow (Nat.ne_of_gt h.exponentBits_pos)
  exact Nat.mul_pos (by omega) (Nat.two_pow_pos _)

end Format

namespace Ieee

variable {f : Format}

/-- Numeric order, for values that are numbers. -/
def Le (x y : Ieee f) : Prop := x.key ≤ y.key

theorem Le.refl (x : Ieee f) : x.Le x := Int.le_refl x.key

theorem Le.trans {x y z : Ieee f} (hxy : x.Le y) (hyz : y.Le z) : x.Le z := Int.le_trans hxy hyz

theorem toNat_ofMagnitude (negative : Bool) {n : Nat} (h : n < 2 ^ f.magnitudeBits) :
    (ofMagnitude negative n : Ieee f).magnitude.toNat = n := by
  rw [ofMagnitude, BitVec.toNat_ofNat, Nat.mod_eq_of_lt h]

theorem isNaN_eq_false_iff {x : Ieee f} : x.isNaN = false ↔ x.magnitude.toNat ≤ f.infinity := by
  rw [isNaN, decide_eq_false_iff_not, Nat.not_lt]

@[simp] theorem isNaN_nan [h : f.Proper] : (nan : Ieee f).isNaN = true := by
  have hlt : 2 ^ (f.fractionBits - 1) < 2 ^ f.fractionBits :=
    Nat.pow_lt_pow_right (by decide) (Nat.sub_lt h.fractionBits_pos (by decide))
  have hadd := f.infinity_add
  have hpos := Nat.two_pow_pos (f.fractionBits - 1)
  rw [isNaN, decide_eq_true_eq, nan, toNat_ofMagnitude false (by omega)]
  omega

@[simp] theorem isNaN_largest (negative : Bool) : (largest negative : Ieee f).isNaN = false := by
  have := f.infinity_lt
  rw [isNaN_eq_false_iff, largest, toNat_ofMagnitude negative (by omega)]
  omega

theorem key_largest (negative : Bool) :
    (largest negative : Ieee f).key =
      if negative then -((f.infinity - 1 : Nat) : Int) else (f.infinity - 1 : Nat) := by
  have hlt := f.infinity_lt
  have hmag := toNat_ofMagnitude (f := f) negative (n := f.infinity - 1) (by omega)
  rw [key, largest, hmag]
  rfl

@[simp] theorem isNaN_infinity (negative : Bool) : (infinity negative : Ieee f).isNaN = false := by
  rw [isNaN_eq_false_iff]
  exact Nat.le_of_eq (toNat_ofMagnitude negative f.infinity_lt)

theorem key_infinity (negative : Bool) :
    (infinity negative : Ieee f).key = if negative then -(f.infinity : Int) else f.infinity := by
  rw [key, infinity, toNat_ofMagnitude negative f.infinity_lt]
  rfl

/-- Two values are equal as numbers if neither is NaN and their keys are equal. -/
theorem numEq_iff {x y : Ieee f} :
    x.numEq y = true ↔ x.isNaN = false ∧ y.isNaN = false ∧ x.key = y.key := by
  simp [numEq, and_assoc]

/-- The two values are one number, or neither is a number. -/
def Alike (x y : Ieee f) : Prop := x.numEq y = true ∨ x.isNaN = true ∧ y.isNaN = true

/-- Among numbers, less is a smaller key. -/
theorem lt_iff {x y : Ieee f} (hx : x.isNaN = false) (hy : y.isNaN = false) :
    x.lt y = true ↔ x.key < y.key := by
  simp [lt, hx, hy]

/-- A number is an infinity if its magnitude is that of infinity. -/
theorem eq_infinity {x : Ieee f} (h : x.magnitude.toNat = f.infinity) :
    x = infinity x.negative := by
  have hmag : x.magnitude = BitVec.ofNat f.magnitudeBits f.infinity := by
    rw [← h, BitVec.ofNat_toNat, BitVec.setWidth_eq]
  rw [infinity, ofMagnitude, ← hmag]

/-- Apart from negative zero, negative values are not zero. -/
theorem toNat_pos_of_negative {x : Ieee f} (hx : x ≠ .neg .zero) (hneg : x.negative = true) :
    0 < x.magnitude.toNat := by
  refine Nat.pos_of_ne_zero fun hzero => hx ?_
  have hmag : x.magnitude = 0#f.magnitudeBits := BitVec.eq_of_toNat_eq hzero
  cases x
  cases hneg
  exact congrArg (Ieee.mk true) hmag

/-- Apart from negative zero, a key determines its value. -/
theorem eq_of_key_eq {x y : Ieee f} (hx : x ≠ .neg .zero) (hy : y ≠ .neg .zero)
    (h : x.key = y.key) : x = y := by
  have hxpos := toNat_pos_of_negative hx
  have hypos := toNat_pos_of_negative hy
  have hsame : x.negative = y.negative ∧ x.magnitude.toNat = y.magnitude.toNat := by
    rw [key, key] at h
    cases hxs : x.negative <;> cases hys : y.negative <;>
      simp only [hxs, hys, if_true, if_false, Bool.false_eq_true, true_imp_iff] at h hxpos hypos <;>
      simp only [true_and, reduceCtorEq, false_and] <;> omega
  obtain ⟨hsign, hmag⟩ := hsame
  have hmag := BitVec.eq_of_toNat_eq hmag
  cases x
  cases y
  exact congr (congrArg Ieee.mk hsign) hmag

/-- A number other than positive infinity is at most the largest finite value. -/
theorem le_largest [f.Proper] {x : Ieee f} (hx : x.isNaN = false) (hne : x ≠ infinity false) :
    x.Le (largest false) := by
  have hle := isNaN_eq_false_iff.mp hx
  have hpos := f.infinity_pos
  rw [Le, key_largest, key]
  cases hs : x.negative with
  | true =>
      simp only [if_true, Bool.false_eq_true, if_false]
      omega
  | false =>
      have hmag : x.magnitude.toNat ≠ f.infinity := by
        intro h
        exact hne (hs ▸ eq_infinity h)
      simp only [Bool.false_eq_true, if_false]
      omega

/-- A number other than negative infinity is at least the most negative finite value. -/
theorem largest_le [f.Proper] {x : Ieee f} (hx : x.isNaN = false) (hne : x ≠ infinity true) :
    (largest true).Le x := by
  have hle := isNaN_eq_false_iff.mp hx
  have hpos := f.infinity_pos
  rw [Le, key_largest, key]
  cases hs : x.negative with
  | true =>
      have hmag : x.magnitude.toNat ≠ f.infinity := by
        intro h
        exact hne (hs ▸ eq_infinity h)
      simp only [if_true]
      omega
  | false =>
      simp only [Bool.false_eq_true, if_false, if_true]
      omega

/-- Positive infinity is beyond the largest finite value. -/
theorem not_infinity_le_largest [f.Proper] :
    ¬ (infinity false : Ieee f).Le (largest false) := by
  have hpos := f.infinity_pos
  rw [Le, key_largest, key_infinity]
  simp only [Bool.false_eq_true, if_false]
  omega

/-- Negative infinity is beyond the most negative finite value. -/
theorem not_largest_le_infinity [f.Proper] :
    ¬ (largest true : Ieee f).Le (infinity true) := by
  have hpos := f.infinity_pos
  rw [Le, key_largest, key_infinity]
  simp only [if_true]
  omega

end Ieee

end GroupedExtrema
