import GroupedExtrema.Fold.Boolean

/-!
# Masks of truth values

The mask of a row differs from a word that changes nothing at one bit only, the place of its slot,
and there only if the row is not null. So folding a row picks between slot and row in that one bit
and leaves the other 31 slots of the word as they are.
-/

namespace GroupedExtrema

theorem SlotWord.getLsbD_ofBit (b : Bool) (j : Nat) :
    (SlotWord.ofBit b).getLsbD j = (decide (j = 0) && b) := by
  rw [SlotWord.ofBit, BitVec.getLsbD_setWidth, BitVec.getLsbD_ofBool]
  by_cases hj : j = 0
  · subst hj
    rfl
  · simp [hj]

/-- A single bit moved to a place of a word is found there and nowhere else. -/
theorem SlotWord.getLsbD_ofBit_shiftLeft (b : Bool) {bit j : Nat} (hj : j < 32) :
    (SlotWord.ofBit b <<< bit).getLsbD j = (decide (j = bit) && b) := by
  rw [BitVec.getLsbD_shiftLeft, SlotWord.getLsbD_ofBit]
  by_cases hlt : j < bit
  · have hne : j ≠ bit := by omega
    simp [hlt, hne]
  · have hiff : j - bit = 0 ↔ j = bit := by omega
    simp [hj, hlt, hiff]

namespace Fold

/-- The word that fills the places below a bit. -/
theorem getLsbD_low {bit j : Nat} (hbit : bit < 32) :
    ((1#32 <<< bit) - 1).getLsbD j = decide (j < bit) := by
  have hone : (1#32 <<< bit).toNat = 2 ^ bit := by
    rw [BitVec.toNat_shiftLeft, BitVec.toNat_ofNat, Nat.one_mod_two_pow_eq_one.mpr (by decide),
      Nat.one_shiftLeft, Nat.mod_eq_of_lt (Nat.pow_lt_pow_right (by decide) hbit)]
  have hle : (1 : BitVec 32) ≤ 1#32 <<< bit := by
    rw [BitVec.le_def, hone]
    exact Nat.one_le_two_pow
  rw [BitVec.getLsbD, BitVec.toNat_sub_of_le hle, hone]
  exact Nat.testBit_two_pow_sub_one bit j

/-- The mask of the minimum keeps every place but its own, and that too unless the row is a false
that is not null. -/
theorem getLsbD_minMask (valid value : Bool) {bit j : Nat} (hbit : bit < 32) (hj : j < 32) :
    (minMask valid value bit).getLsbD j = (decide (j ≠ bit) || !valid || value) := by
  have hshift : j - bit < 32 := by omega
  rw [minMask, BitVec.getLsbD_or, getLsbD_low hbit, BitVec.getLsbD_shiftLeft, BitVec.getLsbD_or,
    BitVec.getLsbD_not, SlotWord.getLsbD_ofBit, SlotWord.getLsbD_ofBit]
  rcases Nat.lt_trichotomy j bit with hlt | rfl | hgt
  · have hne : j ≠ bit := by omega
    simp [hlt, hne]
  · simp [hj]
  · have hne : j ≠ bit := by omega
    have hnot : ¬ j < bit := by omega
    have hpos : j - bit ≠ 0 := by omega
    simp [hj, hshift, hne, hnot, hpos]

/-- The mask of the maximum sets its own place, and only if the row is a true that is not null. -/
theorem getLsbD_maxMask (valid value : Bool) {bit j : Nat} (hj : j < 32) :
    (maxMask valid value bit).getLsbD j = (decide (j = bit) && (valid && value)) := by
  have hand : SlotWord.ofBit valid &&& SlotWord.ofBit value = SlotWord.ofBit (valid && value) := by
    cases valid <;> cases value <;> rfl
  rw [maxMask, hand, SlotWord.getLsbD_ofBit_shiftLeft _ hj]

theorem getLsbD_booleanIdentity (e : Extremum) {j : Nat} (hj : j < 32) :
    (booleanIdentity e).getLsbD j = (e == .min) := by
  cases e with
  | min =>
      rw [booleanIdentity, BitVec.getLsbD_allOnes, decide_eq_true hj]
      rfl
  | max => simp [booleanIdentity]

/-- A row is picked at its place if it is not null; all other places stay. -/
theorem getLsbD_boolean (e : Extremum) (word : SlotWord) (incoming valid : Bool) {bit j : Nat}
    (hbit : bit < 32) (hj : j < 32) :
    (boolean e bit word incoming valid).getLsbD j =
      if j = bit ∧ valid then e.pick (word.getLsbD j) incoming else word.getLsbD j := by
  cases e with
  | min =>
      rw [boolean, BitVec.getLsbD_and, getLsbD_minMask valid incoming hbit hj]
      by_cases hb : j = bit <;> cases valid <;> simp [hb, Extremum.pick, Min.min]
  | max =>
      rw [boolean, BitVec.getLsbD_or, getLsbD_maxMask valid incoming hj]
      by_cases hb : j = bit <;> cases valid <;> simp [hb, Extremum.pick, Max.max]

/-- Conjunction and disjunction of a whole list. -/
theorem foldl_pick_bool (e : Extremum) (vs : List Bool) (b : Bool) :
    vs.foldl e.pick b = match e with
      | .min => b && vs.all id
      | .max => b || vs.any id := by
  induction vs generalizing b with
  | nil => cases e <;> simp
  | cons v vs ih =>
      rw [List.foldl_cons, ih]
      cases e with
      | min => simp [Extremum.pick, Min.min, Bool.and_assoc]
      | max => simp [Extremum.pick, Max.max, Bool.or_assoc]

/-- Picking through lists of the same truth values ends at the same one. -/
theorem foldl_pick_bool_congr (e : Extremum) (b : Bool) {vs ws : List Bool}
    (hmem : ∀ v, v ∈ vs ↔ v ∈ ws) : vs.foldl e.pick b = ws.foldl e.pick b := by
  have hall : vs.all id = ws.all id := by
    rw [Bool.eq_iff_iff, List.all_eq_true, List.all_eq_true]
    simp only [hmem]
  have hany : vs.any id = ws.any id := by
    rw [Bool.eq_iff_iff, List.any_eq_true, List.any_eq_true]
    simp only [hmem]
  rw [foldl_pick_bool, foldl_pick_bool, hall, hany]

end Fold

end GroupedExtrema
