import GroupedExtrema.Ieee.Rounding
import Mathlib.Data.Int.Log
import Mathlib.Data.Rat.Floor
import Mathlib.Algebra.Order.Field.Power
import Mathlib.Algebra.Order.Field.Rat
import Mathlib.Tactic.Linarith
import Mathlib.Tactic.Positivity
import Mathlib.Tactic.FieldSimp

/-!
# Rounding is monotone

A magnitude is made of the place at which a fraction is cut off and of the natural number nearest to
what is left of it. Both grow with the fraction. Where two fractions are cut off at different places
the larger one has a leading bit that the smaller one can reach by rounding up, but not pass, so the
magnitudes are in order there as well.

A power of two is its own magnitude. So a fraction between two powers of two is rounded to a
magnitude between theirs.
-/

namespace GroupedExtrema

/-! ### Nearest natural numbers -/

/-- The natural number is nearest to a fraction, and is even where another one is as near. -/
structure IsNearestEven (x : ℚ) (n : ℕ) : Prop where
  le : 2 * x ≤ 2 * n + 1
  ge : 2 * (n : ℚ) ≤ 2 * x + 1
  even : 2 * x = 2 * n + 1 ∨ 2 * (n : ℚ) = 2 * x + 1 → n % 2 = 0

theorem isNearestEven_natCast (n : ℕ) : IsNearestEven n n where
  le := by linarith
  ge := by linarith
  even := by
    rintro (h | h)
    · linarith
    · linarith

theorem isNearestEven_roundHalfEven (num : ℕ) {den : ℕ} (hden : 0 < den) :
    IsNearestEven (num / den) (roundHalfEven num den) := by
  -- The fraction is its integer part `q` and a rest `t` below one.
  obtain ⟨q, hq⟩ : ∃ q, num / den = q := ⟨_, rfl⟩
  obtain ⟨r, hr⟩ : ∃ r, num % den = r := ⟨_, rfl⟩
  obtain ⟨t, ht⟩ : ∃ t : ℚ, r / den = t := ⟨_, rfl⟩
  have hpos : (0 : ℚ) < den := Nat.cast_pos.mpr hden
  have hx : (num : ℚ) / den = q + t := by
    have hsum : (den : ℚ) * q + r = num := by
      rw [← hq, ← hr]
      exact_mod_cast Nat.div_add_mod num den
    rw [← ht, ← hsum]
    field_simp
  have hnonneg : 0 ≤ t := ht ▸ by positivity
  have hlt : t < 1 := by
    rw [← ht, div_lt_one hpos, ← hr]
    exact_mod_cast Nat.mod_lt num hden
  have hbelow : 2 * r < den ↔ 2 * t < 1 := by
    rw [← ht, ← mul_div_assoc, div_lt_one hpos]
    exact_mod_cast Iff.rfl
  have habove : den < 2 * r ↔ 1 < 2 * t := by
    rw [← ht, ← mul_div_assoc, one_lt_div hpos]
    exact_mod_cast Iff.rfl
  rw [hx]
  simp only [roundHalfEven, hq, hr, hbelow, habove]
  split
  case isTrue h =>
      exact ⟨by linarith, by linarith, by rintro (h' | h') <;> linarith⟩
  case isFalse h =>
      split
      case isTrue h' =>
          exact ⟨by push_cast; linarith, by push_cast; linarith,
            by push_cast; rintro (h'' | h'') <;> linarith⟩
      case isFalse h' =>
          have htie : 2 * t = 1 := le_antisymm (not_lt.mp h') (not_lt.mp h)
          have hrest : q % 2 = 0 ∨ q % 2 = 1 := by omega
          rcases hrest with heven | hodd
          · rw [heven, Nat.add_zero]
            exact ⟨by linarith, by linarith, fun _ => heven⟩
          · rw [hodd]
            exact ⟨by push_cast; linarith, by push_cast; linarith, fun _ => by omega⟩

/-- Larger fractions have larger nearest numbers. -/
theorem IsNearestEven.mono {x y : ℚ} {m n : ℕ} (hm : IsNearestEven x m) (hn : IsNearestEven y n)
    (h : x ≤ y) : m ≤ n := by
  refine Nat.not_lt.mp fun hlt => ?_
  have hcast : (n : ℚ) + 1 ≤ m := by exact_mod_cast hlt
  have hge := hm.ge
  have hle := hn.le
  -- Only fractions halfway between `n` and `n + 1 = m` can be rounded the other way round, but then
  -- both numbers would be even.
  have hsucc : m = n + 1 := by
    have : (m : ℚ) ≤ n + 1 := by linarith
    exact le_antisymm (by exact_mod_cast this) hlt
  have hmeven := hm.even (Or.inr (by linarith))
  have hneven := hn.even (Or.inl (by linarith))
  omega

/-! ### Fractions and their binary logarithms -/

/-- A fraction above zero has a numerator above zero. -/
theorem numerator_pos_of_div_pos {num den : ℕ} (hden : 0 < den) (h : (0 : ℚ) < num / den) :
    0 < num :=
  Nat.cast_pos.mp ((div_pos_iff_of_pos_right (Nat.cast_pos.mpr hden)).mp h)

/-- A power of two as a fraction of natural numbers. -/
theorem two_zpow_eq_div (k : ℤ) : (2 : ℚ) ^ k = 2 ^ k.toNat / 2 ^ (-k).toNat := by
  rw [← zpow_natCast, ← zpow_natCast, ← zpow_sub₀ two_ne_zero, Int.toNat_sub_toNat_neg]

theorem two_zpow_log_le {x : ℚ} (hx : 0 < x) : (2 : ℚ) ^ Int.log 2 x ≤ x :=
  Int.zpow_log_le_self one_lt_two hx

theorem lt_two_zpow_log (x : ℚ) : x < (2 : ℚ) ^ (Int.log 2 x + 1) :=
  Int.lt_zpow_succ_log_self one_lt_two x

theorem log_eq_of_le_of_lt {x : ℚ} {k : ℤ} (hle : (2 : ℚ) ^ k ≤ x) (hlt : x < (2 : ℚ) ^ (k + 1)) :
    Int.log 2 x = k := by
  have hx : 0 < x := lt_of_lt_of_le (zpow_pos two_pos k) hle
  have hk : k ≤ Int.log 2 x := (Int.zpow_le_iff_le_log one_lt_two hx).mp hle
  have hk' : Int.log 2 x < k + 1 := (Int.lt_zpow_iff_log_lt one_lt_two hx).mp hlt
  omega

/-- The integer part of the logarithm is the difference of those of numerator and denominator, or
one less. -/
theorem floorLog2_eq_log {num den : ℕ} (hnum : 0 < num) (hden : 0 < den) :
    floorLog2 num den = Int.log 2 (num / den : ℚ) := by
  obtain ⟨d, hd⟩ : ∃ d : ℤ, (num.log2 : ℤ) - den.log2 = d := ⟨_, rfl⟩
  have hpos : (0 : ℚ) < den := Nat.cast_pos.mpr hden
  have hnumle : ((2 : ℚ) ^ num.log2) ≤ num := by
    exact_mod_cast Nat.log2_self_le (Nat.ne_of_gt hnum)
  have hnumlt : (num : ℚ) < 2 ^ (num.log2 + 1) := by exact_mod_cast Nat.lt_log2_self
  have hdenle : ((2 : ℚ) ^ den.log2) ≤ den := by
    exact_mod_cast Nat.log2_self_le (Nat.ne_of_gt hden)
  have hdenlt : (den : ℚ) < 2 ^ (den.log2 + 1) := by exact_mod_cast Nat.lt_log2_self
  have hlower : (2 : ℚ) ^ (d - 1) ≤ num / den := by
    have hsplit : d - 1 = (num.log2 : ℤ) - (den.log2 + 1 : ℕ) := by omega
    rw [hsplit, zpow_sub₀ two_ne_zero, zpow_natCast, zpow_natCast]
    exact div_le_div₀ (Nat.cast_nonneg num) hnumle hpos hdenlt.le
  have hupper : (num / den : ℚ) < 2 ^ (d + 1) := by
    have hsplit : d + 1 = (num.log2 + 1 : ℕ) - (den.log2 : ℤ) := by omega
    rw [hsplit, zpow_sub₀ two_ne_zero, zpow_natCast, zpow_natCast]
    exact div_lt_div₀ hnumlt hdenle (by positivity) (by positivity)
  have hcut : num * 2 ^ (-d).toNat < den * 2 ^ d.toNat ↔ (num / den : ℚ) < 2 ^ d := by
    rw [two_zpow_eq_div, div_lt_div_iff₀ hpos (by positivity), mul_comm ((2 : ℚ) ^ d.toNat)]
    exact_mod_cast Iff.rfl
  simp only [floorLog2, hd, hcut]
  split
  case isTrue h => exact (log_eq_of_le_of_lt hlower (by rwa [Int.sub_add_cancel])).symm
  case isFalse h => exact (log_eq_of_le_of_lt (not_lt.mp h) hupper).symm

/-! ### Magnitudes -/

namespace Format

variable {f : Format} {num den num' den' : ℕ}

/-- The exponent of the last place of a fraction that is kept. -/
def lastPlace (f : Format) (x : ℚ) : ℤ := max (Int.log 2 x - f.fractionBits) f.minExponent

/-- A fraction has at most one more place before its last one than the format has fraction bits. -/
theorem div_lastPlace_lt (f : Format) (x : ℚ) :
    x / 2 ^ f.lastPlace x < (2 ^ (f.fractionBits + 1) : ℕ) := by
  have hle : Int.log 2 x + 1 ≤ (f.fractionBits + 1 : ℕ) + f.lastPlace x := by
    unfold lastPlace
    omega
  rw [div_lt_iff₀ (zpow_pos two_pos _), Nat.cast_pow, Nat.cast_ofNat, ← zpow_natCast,
    ← zpow_add₀ two_ne_zero]
  exact lt_of_lt_of_le (lt_two_zpow_log x) (zpow_le_zpow_right₀ one_le_two hle)

/-- A fraction that is not cut off at the smallest place has that many. -/
theorem le_div_lastPlace {x : ℚ} (hx : 0 < x) (h : f.minExponent < f.lastPlace x) :
    (2 ^ f.fractionBits : ℕ) ≤ x / 2 ^ f.lastPlace x := by
  have heq : (f.fractionBits : ℤ) + f.lastPlace x = Int.log 2 x := by
    unfold lastPlace at h ⊢
    omega
  rw [le_div_iff₀ (zpow_pos two_pos _), Nat.cast_pow, Nat.cast_ofNat, ← zpow_natCast,
    ← zpow_add₀ two_ne_zero, heq]
  exact two_zpow_log_le hx

/-- A magnitude counts the places and adds the nearest number. -/
theorem exists_roundMagnitude_eq (f : Format) (hnum : 0 < num) (hden : 0 < den) :
    ∃ q, IsNearestEven (num / den / 2 ^ f.lastPlace (num / den)) q ∧
      f.roundMagnitude num den = min
        ((f.lastPlace (num / den) - f.minExponent).toNat * 2 ^ f.fractionBits + q) f.infinity := by
  obtain ⟨e, he⟩ : ∃ e, f.lastPlace (num / den) = e := ⟨_, rfl⟩
  have hscaled : ((num * 2 ^ (-e).toNat : ℕ) / (den * 2 ^ e.toNat : ℕ) : ℚ) =
      num / den / 2 ^ e := by
    rw [two_zpow_eq_div]
    push_cast
    field_simp
  have hnearest := isNearestEven_roundHalfEven (num * 2 ^ (-e).toNat)
    (Nat.mul_pos hden (Nat.two_pow_pos e.toNat))
  rw [hscaled] at hnearest
  subst he
  refine ⟨_, hnearest, ?_⟩
  rw [roundMagnitude, if_neg (Nat.ne_of_gt hnum), floorLog2_eq_log hnum hden]
  rfl

theorem roundMagnitude_zero (f : Format) (den : ℕ) : f.roundMagnitude 0 den = 0 := rfl

theorem roundMagnitude_le_infinity (f : Format) (num den : ℕ) :
    f.roundMagnitude num den ≤ f.infinity := by
  unfold roundMagnitude
  split
  · exact Nat.zero_le _
  · exact Nat.min_le_right _ _

/-- A larger fraction never has a smaller magnitude. -/
theorem roundMagnitude_mono (hden : 0 < den) (hden' : 0 < den')
    (h : (num / den : ℚ) ≤ num' / den') :
    f.roundMagnitude num den ≤ f.roundMagnitude num' den' := by
  rcases Nat.eq_zero_or_pos num with rfl | hnum
  · exact Nat.zero_le _
  obtain ⟨x, hx⟩ : ∃ x : ℚ, num / den = x := ⟨_, rfl⟩
  obtain ⟨y, hy⟩ : ∃ y : ℚ, num' / den' = y := ⟨_, rfl⟩
  have hpos : 0 < x := hx ▸ div_pos (Nat.cast_pos.mpr hnum) (Nat.cast_pos.mpr hden)
  rw [hx, hy] at h
  have hnum' : 0 < num' := numerator_pos_of_div_pos hden' (hy ▸ lt_of_lt_of_le hpos h)
  obtain ⟨q, hq, heq⟩ := exists_roundMagnitude_eq f hnum hden
  obtain ⟨q', hq', heq'⟩ := exists_roundMagnitude_eq f hnum' hden'
  rw [heq, heq']
  rw [hx] at hq ⊢
  rw [hy] at hq' ⊢
  refine min_le_min_right _ ?_
  have hlog : Int.log 2 x ≤ Int.log 2 y := Int.log_mono_right hpos h
  have hplace : f.lastPlace x ≤ f.lastPlace y := by
    unfold lastPlace
    omega
  rcases eq_or_lt_of_le hplace with hsame | hless
  · -- Cut off at the same place, the nearest numbers decide.
    rw [hsame] at hq ⊢
    have hscaled : x / 2 ^ f.lastPlace y ≤ y / 2 ^ f.lastPlace y :=
      div_le_div_of_nonneg_right h (zpow_pos two_pos _).le
    exact Nat.add_le_add_left (hq.mono hq' hscaled) _
  · -- The larger fraction has a place more, which rounding the smaller one can fill but not pass.
    have hmin : f.minExponent ≤ f.lastPlace x := le_max_right _ _
    have hqle : q ≤ 2 ^ (f.fractionBits + 1) :=
      hq.mono (isNearestEven_natCast _) (f.div_lastPlace_lt x).le
    have hleq : 2 ^ f.fractionBits ≤ q' :=
      (isNearestEven_natCast _).mono hq'
        (le_div_lastPlace (lt_of_lt_of_le hpos h) (lt_of_le_of_lt hmin hless))
    obtain ⟨k, hk⟩ : ∃ k, (f.lastPlace y - f.minExponent).toNat =
        (f.lastPlace x - f.minExponent).toNat + 1 + k :=
      Nat.exists_eq_add_of_le (by omega)
    rw [hk, Nat.add_mul, Nat.add_mul, Nat.one_mul]
    rw [Nat.pow_succ] at hqle
    omega

/-! ### Powers of two -/

/-- The magnitude of a power of two that has room for all fraction bits below it. -/
def powerMagnitude (f : Format) (k : ℤ) : ℕ :=
  (k - f.fractionBits - f.minExponent + 1).toNat * 2 ^ f.fractionBits

/-- The power of two has room for all fraction bits below it, and is finite. -/
def IsNormal (f : Format) (k : ℤ) : Prop :=
  f.minExponent + f.fractionBits ≤ k ∧ f.powerMagnitude k < f.infinity

instance (f : Format) (k : ℤ) : Decidable (f.IsNormal k) :=
  inferInstanceAs (Decidable (_ ∧ _))

theorem powerMagnitude_mono (f : Format) {a b : ℤ} (h : a ≤ b) :
    f.powerMagnitude a ≤ f.powerMagnitude b :=
  Nat.mul_le_mul_right _ (by omega)

theorem IsNormal.powerMagnitude_pos {k : ℤ} (h : f.IsNormal k) : 0 < f.powerMagnitude k := by
  have hlow := h.1
  exact Nat.mul_pos (by omega) (Nat.two_pow_pos _)

/-- What lies between normal exponents is normal. -/
theorem IsNormal.of_le_of_le {a b k : ℤ} (ha : f.IsNormal a) (hb : f.IsNormal b) (hak : a ≤ k)
    (hkb : k ≤ b) : f.IsNormal k :=
  ⟨ha.1.trans hak, Nat.lt_of_le_of_lt (f.powerMagnitude_mono hkb) hb.2⟩

/-- A power of two is its own magnitude. -/
theorem roundMagnitude_two_zpow {k : ℤ} (hk : f.IsNormal k) (hden : 0 < den)
    (h : (num / den : ℚ) = 2 ^ k) : f.roundMagnitude num den = f.powerMagnitude k := by
  have hnum : 0 < num := numerator_pos_of_div_pos hden (h ▸ zpow_pos two_pos k)
  obtain ⟨hlow, hfinite⟩ := hk
  have hlog : Int.log 2 ((2 : ℚ) ^ k) = k := Int.log_zpow one_lt_two k
  have hplace : f.lastPlace (2 ^ k) = k - f.fractionBits := by
    rw [lastPlace, hlog]
    omega
  obtain ⟨q, hq, heq⟩ := exists_roundMagnitude_eq f hnum hden
  rw [h, hplace] at hq heq
  -- The nearest number is the leading bit alone.
  have hscaled : (2 : ℚ) ^ k / 2 ^ (k - f.fractionBits) = (2 ^ f.fractionBits : ℕ) := by
    rw [← zpow_sub₀ two_ne_zero, sub_sub_cancel, zpow_natCast, Nat.cast_pow, Nat.cast_ofNat]
  rw [hscaled] at hq
  have hpow : q = 2 ^ f.fractionBits :=
    le_antisymm (hq.mono (isNearestEven_natCast _) le_rfl) ((isNearestEven_natCast _).mono hq le_rfl)
  have hcount : (k - f.fractionBits - f.minExponent + 1).toNat =
      (k - f.fractionBits - f.minExponent).toNat + 1 := by omega
  have hsum : (k - f.fractionBits - f.minExponent).toNat * 2 ^ f.fractionBits + q =
      f.powerMagnitude k := by
    rw [powerMagnitude, hcount, Nat.succ_mul, hpow]
  rw [heq, hsum]
  exact Nat.min_eq_left hfinite.le

/-- A fraction between two powers of two has a magnitude between theirs. -/
theorem roundMagnitude_between {a b : ℤ} (ha : f.IsNormal a) (hb : f.IsNormal b) (hden : 0 < den)
    (hle : (2 : ℚ) ^ a ≤ num / den) (hge : (num / den : ℚ) ≤ 2 ^ b) :
    f.powerMagnitude a ≤ f.roundMagnitude num den ∧
      f.roundMagnitude num den ≤ f.powerMagnitude b := by
  have hpower (k : ℤ) : (((2 ^ k.toNat : ℕ) : ℚ) / (2 ^ (-k).toNat : ℕ)) = 2 ^ k := by
    rw [two_zpow_eq_div, Nat.cast_pow, Nat.cast_pow, Nat.cast_ofNat]
  rw [← roundMagnitude_two_zpow ha (Nat.two_pow_pos _) (hpower a),
    ← roundMagnitude_two_zpow hb (Nat.two_pow_pos _) (hpower b)]
  exact ⟨roundMagnitude_mono (Nat.two_pow_pos _) hden (by rwa [hpower]),
    roundMagnitude_mono hden (Nat.two_pow_pos _) (by rwa [hpower])⟩

end Format

end GroupedExtrema
