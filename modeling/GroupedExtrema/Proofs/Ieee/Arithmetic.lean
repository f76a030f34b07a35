import GroupedExtrema.Proofs.Ieee.Order
import GroupedExtrema.Proofs.Ieee.Rounding

/-!
# Arithmetic of floating-point values

Finite values stand for rational numbers, and their order is that of these numbers. Every operation
rounds an exact result once, so it keeps the order of exact results, and a result between two powers
of two stays between them. Signs are kept out of this: they are those of the exact results.
-/

namespace GroupedExtrema.Ieee

variable {f : Format}

/-! ### Finite values as numbers -/

/-- The number that the magnitude of a finite value stands for. -/
def absValue (x : Ieee f) : ℚ := x.significand * 2 ^ x.exponent

theorem absValue_nonneg (x : Ieee f) : 0 ≤ x.absValue :=
  mul_nonneg (Nat.cast_nonneg _) (zpow_pos two_pos _).le

theorem denominator_pos (x : Ieee f) : 0 < x.denominator := Nat.two_pow_pos _

theorem numerator_div_denominator (x : Ieee f) :
    (x.numerator / x.denominator : ℚ) = x.absValue := by
  rw [absValue, two_zpow_eq_div, numerator, denominator]
  push_cast
  exact mul_div_assoc _ _ _

theorem exponent_of_pos {x : Ieee f} (h : 0 < x.exponentField) :
    x.exponent = f.minExponent + x.exponentField - 1 := by
  rw [exponent, Nat.max_eq_left h]
  omega

theorem significand_of_pos {x : Ieee f} (h : 0 < x.exponentField) :
    x.significand = 2 ^ f.fractionBits + x.fractionField := if_neg (Nat.ne_of_gt h)

theorem fractionField_lt (x : Ieee f) : x.fractionField < 2 ^ f.fractionBits :=
  Nat.mod_lt _ (Nat.two_pow_pos _)

/-- A significand and an exponent together pass a power of two only if the significand does. -/
theorem absValue_lt_two_zpow {x : Ieee f} {k : ℕ} (h : x.significand < 2 ^ k) :
    x.absValue < 2 ^ (k + x.exponent) := by
  rw [absValue, zpow_add₀ two_ne_zero, zpow_natCast]
  exact mul_lt_mul_of_pos_right (by exact_mod_cast h) (zpow_pos two_pos _)

/-- The exponent field alone bounds a value from above. -/
theorem absValue_lt (x : Ieee f) :
    x.absValue < 2 ^ (f.minExponent + f.fractionBits + x.exponentField) := by
  have hfraction := x.fractionField_lt
  rcases Nat.eq_zero_or_pos x.exponentField with hzero | hpos
  · have hsig : x.significand < 2 ^ f.fractionBits := by
      rw [significand, if_pos hzero]
      exact hfraction
    have hexp : (f.fractionBits : ℤ) + x.exponent =
        f.minExponent + f.fractionBits + x.exponentField := by
      rw [exponent, hzero]
      omega
    exact hexp ▸ absValue_lt_two_zpow hsig
  · have hsig : x.significand < 2 ^ (f.fractionBits + 1) := by
      rw [significand_of_pos hpos, Nat.pow_succ]
      omega
    have hexp : ((f.fractionBits + 1 : ℕ) : ℤ) + x.exponent =
        f.minExponent + f.fractionBits + x.exponentField := by
      rw [exponent_of_pos hpos]
      omega
    exact hexp ▸ absValue_lt_two_zpow hsig

/-- Where there is a leading bit, it bounds the value from below. -/
theorem le_absValue {x : Ieee f} (h : 0 < x.exponentField) :
    2 ^ (f.minExponent + f.fractionBits + x.exponentField - 1) ≤ x.absValue := by
  have hsplit : f.minExponent + f.fractionBits + x.exponentField - 1 =
      f.fractionBits + x.exponent := by
    rw [exponent_of_pos h]
    omega
  rw [hsplit, absValue, significand_of_pos h, zpow_add₀ two_ne_zero, zpow_natCast]
  refine mul_le_mul_of_nonneg_right ?_ (zpow_pos two_pos _).le
  exact_mod_cast Nat.le_add_right _ _

/-- Larger magnitudes stand for larger numbers. -/
theorem absValue_mono {x y : Ieee f} (h : x.magnitude.toNat ≤ y.magnitude.toNat) :
    x.absValue ≤ y.absValue := by
  have hfield : x.exponentField ≤ y.exponentField := Nat.div_le_div_right h
  rcases Nat.eq_or_lt_of_le hfield with hsame | hless
  · -- With equal exponents the fractions decide.
    have hfraction : x.fractionField ≤ y.fractionField := by
      have hx := Nat.div_add_mod x.magnitude.toNat (2 ^ f.fractionBits)
      have hy := Nat.div_add_mod y.magnitude.toNat (2 ^ f.fractionBits)
      unfold exponentField at hsame
      rw [hsame] at hx
      unfold fractionField
      omega
    have hsig : x.significand ≤ y.significand := by
      unfold significand
      rw [hsame]
      split <;> omega
    have hexp : x.exponent = y.exponent := by rw [exponent, exponent, hsame]
    rw [absValue, absValue, hexp]
    exact mul_le_mul_of_nonneg_right (by exact_mod_cast hsig) (zpow_pos two_pos _).le
  · have hpos : 0 < y.exponentField := by omega
    calc x.absValue
        ≤ 2 ^ (f.minExponent + f.fractionBits + x.exponentField) := x.absValue_lt.le
      _ ≤ 2 ^ (f.minExponent + f.fractionBits + y.exponentField - 1) :=
          zpow_le_zpow_right₀ one_le_two (by omega)
      _ ≤ y.absValue := le_absValue hpos

/-- The magnitude of a power of two stands for it. -/
theorem absValue_eq_two_zpow {x : Ieee f} {k : ℤ} (hk : f.IsNormal k)
    (h : x.magnitude.toNat = f.powerMagnitude k) : x.absValue = 2 ^ k := by
  have hlow := hk.1
  have hfield : x.exponentField = (k - f.fractionBits - f.minExponent + 1).toNat := by
    rw [exponentField, h, Format.powerMagnitude, Nat.mul_div_cancel _ (Nat.two_pow_pos _)]
  have hfraction : x.fractionField = 0 := by
    rw [fractionField, h, Format.powerMagnitude, Nat.mul_mod_left]
  have hpos : 0 < x.exponentField := by omega
  have hexp : f.fractionBits + x.exponent = k := by
    rw [exponent_of_pos hpos]
    omega
  rw [absValue, significand_of_pos hpos, hfraction, Nat.add_zero, Nat.cast_pow, Nat.cast_ofNat,
    ← zpow_natCast, ← zpow_add₀ two_ne_zero, hexp]

theorem absValue_eq_zero {x : Ieee f} (h : x.magnitude.toNat = 0) : x.absValue = 0 := by
  have hfield : x.exponentField = 0 := by rw [exponentField, h, Nat.zero_div]
  rw [absValue, significand, if_pos hfield, fractionField, h, Nat.zero_mod, Nat.cast_zero, zero_mul]

/-! ### Signs -/

/-- The number of a sign and a size. -/
def withSign {α : Type} [Neg α] (negative : Bool) (size : α) : α :=
  if negative then -size else size

/-- Sizes that are in order as others are, and zero where the others are, are in order as these
with any signs. -/
theorem withSign_le_withSign {α β : Type} [AddCommGroup α] [LinearOrder α] [IsOrderedAddMonoid α]
    [AddCommGroup β] [LinearOrder β] [IsOrderedAddMonoid β] {s t : Bool} {x y : α} {x' y' : β}
    (hx : 0 ≤ x) (hy : 0 ≤ y) (hx' : 0 ≤ x') (hy' : 0 ≤ y') (hxy : x ≤ y → x' ≤ y')
    (hyx : y ≤ x → y' ≤ x') (hxzero : x = 0 → x' = 0) (hyzero : y = 0 → y' = 0)
    (h : withSign s x ≤ withSign t y) : withSign s x' ≤ withSign t y' := by
  cases s with
  | false =>
      cases t with
      | false => exact hxy h
      | true =>
          -- A positive number is below a negative one only if both are zero.
          have hle : x ≤ -y := h
          have hxle : x ≤ 0 := hle.trans (neg_nonpos.mpr hy)
          have hyle : y ≤ 0 := neg_nonneg.mp (hx.trans hle)
          show x' ≤ -y'
          rw [hxzero (le_antisymm hxle hx), hyzero (le_antisymm hyle hy), neg_zero]
  | true =>
      cases t with
      | false => exact (neg_nonpos.mpr hx').trans hy'
      | true => exact neg_le_neg (hyx (neg_le_neg_iff.mp h))

theorem withSign_div (negative : Bool) (r s : ℚ) :
    withSign negative (r / s) = withSign negative r / s := by
  cases negative
  · rfl
  · exact (neg_div s r).symm

/-- The number that a finite value stands for. -/
def toRat (x : Ieee f) : ℚ := withSign x.negative x.absValue

theorem key_eq_withSign (x : Ieee f) : x.key = withSign x.negative (x.magnitude.toNat : ℤ) := rfl

/-- Values are ordered as the numbers they stand for. -/
theorem toRat_mono {x y : Ieee f} (h : x.Le y) : x.toRat ≤ y.toRat := by
  rw [Le, key_eq_withSign, key_eq_withSign] at h
  exact withSign_le_withSign (Int.natCast_nonneg _) (Int.natCast_nonneg _) x.absValue_nonneg
    y.absValue_nonneg (fun hle => absValue_mono (Int.ofNat_le.mp hle))
    (fun hle => absValue_mono (Int.ofNat_le.mp hle))
    (fun hzero => absValue_eq_zero (Int.natCast_eq_zero.mp hzero))
    (fun hzero => absValue_eq_zero (Int.natCast_eq_zero.mp hzero)) h

/-! ### Rounded results -/

theorem toNat_ofRatio (negative : Bool) (num den : ℕ) :
    (ofRatio negative num den : Ieee f).magnitude.toNat = f.roundMagnitude num den :=
  toNat_ofMagnitude negative
    (Nat.lt_of_le_of_lt (f.roundMagnitude_le_infinity num den) f.infinity_lt)

/-- Rounding keeps the order of fractions with signs. -/
theorem ofRatio_le_ofRatio {s t : Bool} {num den num' den' : ℕ} (hden : 0 < den) (hden' : 0 < den')
    (h : withSign s (num / den : ℚ) ≤ withSign t (num' / den' : ℚ)) :
    (ofRatio s num den : Ieee f).Le (ofRatio t num' den') := by
  rw [Le, key_eq_withSign, key_eq_withSign, toNat_ofRatio, toNat_ofRatio]
  have hzero {n d : ℕ} (hd : 0 < d) (h : (n / d : ℚ) = 0) : (f.roundMagnitude n d : ℤ) = 0 := by
    rw [div_eq_zero_iff, or_iff_left (Nat.cast_ne_zero.mpr (Nat.ne_of_gt hd)), Nat.cast_eq_zero] at h
    rw [h, Format.roundMagnitude_zero, Nat.cast_zero]
  exact withSign_le_withSign (by positivity) (by positivity) (Int.natCast_nonneg _)
    (Int.natCast_nonneg _)
    (fun hle => Int.ofNat_le.mpr (Format.roundMagnitude_mono hden hden' hle))
    (fun hle => Int.ofNat_le.mpr (Format.roundMagnitude_mono hden' hden hle))
    (hzero hden) (hzero hden') h

/-- Integers are rounded in order. -/
theorem ofInt_mono {i j : ℤ} (h : i ≤ j) : (ofInt i : Ieee f).Le (ofInt j) := by
  have hsigned (i : ℤ) : withSign (decide (i < 0)) ((i.natAbs : ℚ) / (1 : ℕ)) = i := by
    rw [Nat.cast_one, div_one, Nat.cast_natAbs]
    by_cases hi : i < 0
    · rw [decide_eq_true hi, abs_of_neg hi]
      push_cast
      exact neg_neg _
    · rw [decide_eq_false hi, abs_of_nonneg (not_lt.mp hi)]
      rfl
  refine ofRatio_le_ofRatio Nat.one_pos Nat.one_pos ?_
  rw [hsigned, hsigned]
  exact Int.cast_le.mpr h

theorem ofRatio_zero (negative : Bool) (den : ℕ) :
    (ofRatio negative 0 den : Ieee f) = ofMagnitude negative 0 := rfl

/-! ### Operations on finite values -/

variable {x y d : Ieee f}

theorem isNaN_of_lt (h : x.magnitude.toNat < f.infinity) : x.isNaN = false :=
  isNaN_eq_false_iff.mpr h.le

theorem isInfinite_of_lt (h : x.magnitude.toNat < f.infinity) : x.isInfinite = false := by
  rw [isInfinite, beq_eq_false_iff_ne]
  exact Nat.ne_of_lt h

theorem isZero_of_pos (h : 0 < x.magnitude.toNat) : x.isZero = false := by
  rw [isZero, beq_eq_false_iff_ne]
  intro hzero
  rw [hzero] at h
  exact absurd h (by simp)

/-- The product of finite values is their exact product, rounded. -/
theorem mul_eq_ofRatio (hx : x.magnitude.toNat < f.infinity) (hy : y.magnitude.toNat < f.infinity) :
    x * y = ofRatio (x.negative != y.negative) (x.numerator * y.numerator)
      (x.denominator * y.denominator) := by
  show mul x y = _
  simp [mul, isNaN_of_lt hx, isNaN_of_lt hy, isInfinite_of_lt hx, isInfinite_of_lt hy]

/-- The quotient of finite values is their exact quotient, rounded, unless the divisor is zero. -/
theorem div_eq_ofRatio (hx : x.magnitude.toNat < f.infinity) (hd : d.magnitude.toNat < f.infinity)
    (hpos : 0 < d.magnitude.toNat) :
    x / d = ofRatio (x.negative != d.negative) (x.numerator * d.denominator)
      (x.denominator * d.numerator) := by
  show div x d = _
  simp [div, isNaN_of_lt hx, isNaN_of_lt hd, isInfinite_of_lt hx, isInfinite_of_lt hd,
    isZero_of_pos hpos]

theorem numerator_pos (h : 0 < x.magnitude.toNat) : 0 < x.numerator := by
  refine Nat.mul_pos ?_ (Nat.two_pow_pos _)
  unfold significand
  split
  case isTrue hzero =>
      have hsum := Nat.div_add_mod x.magnitude.toNat (2 ^ f.fractionBits)
      unfold exponentField at hzero
      rw [hzero] at hsum
      unfold fractionField
      omega
  case isFalse =>
      have := Nat.two_pow_pos f.fractionBits
      omega

theorem mul_numerators (x y : Ieee f) :
    ((x.numerator * y.numerator : ℕ) / (x.denominator * y.denominator : ℕ) : ℚ) =
      x.absValue * y.absValue := by
  rw [← numerator_div_denominator, ← numerator_div_denominator, div_mul_div_comm, Nat.cast_mul,
    Nat.cast_mul]

theorem div_numerators (x d : Ieee f) :
    ((x.numerator * d.denominator : ℕ) / (x.denominator * d.numerator : ℕ) : ℚ) =
      x.absValue / d.absValue := by
  rw [← numerator_div_denominator, ← numerator_div_denominator, div_div_div_eq, Nat.cast_mul,
    Nat.cast_mul]

/-- Division by a positive value keeps the order. -/
theorem div_mono (hx : x.magnitude.toNat < f.infinity) (hy : y.magnitude.toNat < f.infinity)
    (hd : d.magnitude.toNat < f.infinity) (hpos : 0 < d.magnitude.toNat) (hsign : d.negative = false)
    (h : x.Le y) : (x / d).Le (y / d) := by
  have hden (z : Ieee f) : 0 < z.denominator * d.numerator :=
    Nat.mul_pos z.denominator_pos (numerator_pos hpos)
  rw [div_eq_ofRatio hx hd hpos, div_eq_ofRatio hy hd hpos, hsign, Bool.bne_false, Bool.bne_false]
  refine ofRatio_le_ofRatio (hden x) (hden y) ?_
  rw [div_numerators, div_numerators, withSign_div, withSign_div]
  exact div_le_div_of_nonneg_right (toRat_mono h) d.absValue_nonneg

/-! ### Values between powers of two -/

/-- The value has a sign, and its magnitude lies between those of two powers of two. -/
structure Within (negative : Bool) (a b : ℤ) (x : Ieee f) : Prop where
  negative_eq : x.negative = negative
  normal_left : f.IsNormal a
  normal_right : f.IsNormal b
  le : f.powerMagnitude a ≤ x.magnitude.toNat
  ge : x.magnitude.toNat ≤ f.powerMagnitude b

namespace Within

variable {s t : Bool} {a b a' b' : ℤ}

theorem lt_infinity (h : x.Within s a b) : x.magnitude.toNat < f.infinity :=
  Nat.lt_of_le_of_lt h.ge h.normal_right.2

theorem pos (h : x.Within s a b) : 0 < x.magnitude.toNat :=
  Nat.lt_of_lt_of_le h.normal_left.powerMagnitude_pos h.le

theorem mono (h : x.Within s a b) (ha : a' ≤ a) (hb : b ≤ b') (hnormal : f.IsNormal a')
    (hnormal' : f.IsNormal b') : x.Within s a' b' where
  negative_eq := h.negative_eq
  normal_left := hnormal
  normal_right := hnormal'
  le := (f.powerMagnitude_mono ha).trans h.le
  ge := h.ge.trans (f.powerMagnitude_mono hb)

/-- The number itself lies between the powers. -/
theorem absValue_between (h : x.Within s a b) : 2 ^ a ≤ x.absValue ∧ x.absValue ≤ 2 ^ b := by
  have hpower {k : ℤ} (hk : f.IsNormal k) :
      (ofMagnitude false (f.powerMagnitude k) : Ieee f).magnitude.toNat = f.powerMagnitude k :=
    toNat_ofMagnitude false (hk.2.trans f.infinity_lt)
  rw [← absValue_eq_two_zpow h.normal_left (hpower h.normal_left),
    ← absValue_eq_two_zpow h.normal_right (hpower h.normal_right)]
  exact ⟨absValue_mono (by rw [hpower h.normal_left]; exact h.le),
    absValue_mono (by rw [hpower h.normal_right]; exact h.ge)⟩

end Within

variable {s t : Bool} {a b a' b' : ℤ}

theorem within_ofRatio {num den : ℕ} (ha : f.IsNormal a) (hb : f.IsNormal b) (hden : 0 < den)
    (hle : (2 : ℚ) ^ a ≤ num / den) (hge : (num / den : ℚ) ≤ 2 ^ b) (negative : Bool) :
    (ofRatio negative num den : Ieee f).Within negative a b := by
  obtain ⟨hlower, hupper⟩ := Format.roundMagnitude_between ha hb hden hle hge
  exact ⟨rfl, ha, hb, by rwa [toNat_ofRatio], by rwa [toNat_ofRatio]⟩

/-- Exponents add up in a product. -/
theorem Within.mul (hx : x.Within s a b) (hy : y.Within t a' b') (ha : f.IsNormal (a + a'))
    (hb : f.IsNormal (b + b')) : (x * y).Within (s != t) (a + a') (b + b') := by
  obtain ⟨hxle, hxge⟩ := hx.absValue_between
  obtain ⟨hyle, hyge⟩ := hy.absValue_between
  rw [mul_eq_ofRatio hx.lt_infinity hy.lt_infinity, hx.negative_eq, hy.negative_eq]
  refine within_ofRatio ha hb (Nat.mul_pos x.denominator_pos y.denominator_pos) ?_ ?_ _
  · rw [mul_numerators, zpow_add₀ two_ne_zero]
    exact mul_le_mul hxle hyle (zpow_pos two_pos _).le x.absValue_nonneg
  · rw [mul_numerators, zpow_add₀ two_ne_zero]
    exact mul_le_mul hxge hyge y.absValue_nonneg (zpow_pos two_pos _).le

/-- Exponents are subtracted in a quotient. -/
theorem Within.div (hx : x.Within s a b) (hd : d.Within t a' b') (ha : f.IsNormal (a - b'))
    (hb : f.IsNormal (b - a')) : (x / d).Within (s != t) (a - b') (b - a') := by
  obtain ⟨hxle, hxge⟩ := hx.absValue_between
  obtain ⟨hdle, hdge⟩ := hd.absValue_between
  have hdpos : 0 < d.absValue := lt_of_lt_of_le (zpow_pos two_pos a') hdle
  rw [div_eq_ofRatio hx.lt_infinity hd.lt_infinity hd.pos, hx.negative_eq, hd.negative_eq]
  refine within_ofRatio ha hb (Nat.mul_pos x.denominator_pos (numerator_pos hd.pos)) ?_ ?_ _
  · rw [div_numerators, zpow_sub₀ two_ne_zero]
    exact div_le_div₀ x.absValue_nonneg hxle hdpos hdge
  · rw [div_numerators, zpow_sub₀ two_ne_zero]
    exact div_le_div₀ (zpow_pos two_pos _).le hxge (zpow_pos two_pos _) hdle

/-- A power by repeated squaring of a value that is at least one. -/
theorem Within.mulPower {acc base : Ieee f} {n : ℕ} (hacc : acc.Within false 0 a)
    (hbase : base.Within false 0 b) (ha : 0 ≤ a) (hb : 0 ≤ b) (hn : f.IsNormal (a + b * n)) :
    (Ieee.mulPower acc base n).Within false 0 (a + b * n) := by
  induction n using Nat.strongRecOn generalizing acc base a b with
  | ind n ih =>
      obtain ⟨m, hm⟩ : ∃ m, n / 2 = m := ⟨_, rfl⟩
      obtain ⟨r, hr⟩ : ∃ r, n % 2 = r := ⟨_, rfl⟩
      have hsplit : a + b * (n : ℤ) = a + b * r + (b + b) * m := by
        have hsum : (n : ℤ) = 2 * m + r := by omega
        rw [hsum]
        ring
      have hrest : 0 ≤ (b + b) * (m : ℤ) := by positivity
      have hbit : 0 ≤ b * (r : ℤ) := by positivity
      -- The lowest bit of the exponent multiplies by the base.
      have hacc' : (if r = 1 then acc * base else acc).Within false 0 (a + b * r) := by
        split
        case isTrue hone =>
            have hmul := hacc.mul hbase hacc.normal_left
              (hacc.normal_left.of_le_of_le hn (by omega) (by subst hone; omega))
            simpa [hone] using hmul
        case isFalse hzero =>
            have hr0 : r = 0 := by omega
            simpa [hr0] using hacc
      rw [Ieee.mulPower, hsplit]
      simp only [hm, hr]
      split
      case isTrue hlast =>
          simpa [hlast] using hacc'
      case isFalse hmore =>
          have hge : b + b ≤ (b + b) * (m : ℤ) :=
            le_mul_of_one_le_right (by omega) (by omega)
          have hsquare := hbase.mul hbase hacc.normal_left
            (hacc.normal_left.of_le_of_le hn (by omega) (by omega))
          exact ih m (by omega) hacc' (by simpa using hsquare) (by omega) (by omega) (hsplit ▸ hn)

end GroupedExtrema.Ieee
