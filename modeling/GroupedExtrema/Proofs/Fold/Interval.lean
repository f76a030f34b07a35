import GroupedExtrema.Arithmetic
import GroupedExtrema.Fold.Interval
import GroupedExtrema.Proofs.Fold.Integer

/-!
# The order of intervals

As a number, the key of a storage word is `days * 2 ^ 32 + (millis + 2 ^ 31)`: flipping the sign bit
of the milliseconds moves them to the numbers below `2 ^ 32`, so they decide exactly where the days
are equal. Keys are therefore ordered as intervals are, days first and then milliseconds, and they
determine the word. No number is left out: the smallest and the largest one are the keys of the
identities.

No key is beyond the one of the identity, which is why a null row, folded with that key, never
replaces a slot, whatever its payload is.
-/

namespace GroupedExtrema

namespace Interval

/-- Days decide first, then milliseconds; both are signed. -/
def Le (i j : Interval) : Prop := i.days < j.days ∨ i.days = j.days ∧ i.millis ≤ j.millis

/-! ### Storage -/

/-- The two halves of a storage word. -/
theorem toStorage_eq_append (i : Interval) :
    i.toStorage = i.millis.toBitVec ++ i.days.toBitVec := by
  rw [toStorage, BitVec.or_comm, ← BitVec.setWidth_append_eq_shiftLeft_setWidth_or]
  exact BitVec.setWidth_eq _

theorem ofStorage_toStorage (i : Interval) : ofStorage i.toStorage = i := by
  have hdays : (i.millis.toBitVec ++ i.days.toBitVec).setWidth 32 = i.days.toBitVec :=
    BitVec.setWidth_append_eq_right
  have hmillis : ((i.millis.toBitVec ++ i.days.toBitVec) >>> 32).setWidth 32 =
      i.millis.toBitVec := by
    rw [BitVec.setWidth_ushiftRight_eq_extractLsb]
    exact BitVec.extractLsb'_append_eq_left
  rw [ofStorage, toStorage_eq_append, hdays, hmillis]
  rfl

theorem toStorage_ofStorage (w : BitVec 64) : (ofStorage w).toStorage = w := by
  rw [toStorage_eq_append]
  apply BitVec.eq_of_getLsbD_eq
  intro j hj
  rw [BitVec.getLsbD_append]
  by_cases h : j < 32
  · simp [ofStorage, h]
  · have hhigh : j - 32 < 32 := by omega
    have hsum : 32 + (j - 32) = j := by omega
    simp [ofStorage, h, hhigh, hsum]

/-! ### Keys as numbers -/

/-- Exclusive or with the sign bit adds it where it is missing and takes it away where it is not. -/
theorem xor_signBit {n : Nat} (h : n < 2 ^ 32) :
    n ^^^ 2 ^ 31 = if n < 2 ^ 31 then n + 2 ^ 31 else n - 2 ^ 31 := by
  have hdiv : (n ^^^ 2 ^ 31) / 2 ^ 31 = n / 2 ^ 31 ^^^ 1 := by
    rw [Nat.xor_div_two_pow, Nat.div_self (Nat.two_pow_pos 31)]
  have hmod : (n ^^^ 2 ^ 31) % 2 ^ 31 = n % 2 ^ 31 := by
    rw [Nat.xor_mod_two_pow, Nat.mod_self, Nat.xor_zero]
  -- Above the lower bits there is the sign bit only.
  have hhigh : n / 2 ^ 31 = 0 ∨ n / 2 ^ 31 = 1 := by omega
  rcases hhigh with hzero | hone
  · rw [hzero, Nat.zero_xor] at hdiv
    rw [if_pos (by omega)]
    omega
  · rw [hone, Nat.xor_self] at hdiv
    rw [if_neg (by omega)]
    omega

/-- Read without a sign, a number with its sign bit flipped has moved up by `2 ^ 31`. -/
theorem toNat_flipSign (x : BitVec 32) :
    ((x ^^^ 0x80000000#32).toNat : Int) = x.toInt + 2 ^ 31 := by
  have hflip : (x ^^^ 0x80000000#32).toNat = x.toNat ^^^ 2 ^ 31 := BitVec.toNat_xor ..
  have hlt := x.isLt
  rw [hflip, xor_signBit hlt, BitVec.toInt_eq_toNat_cond]
  split <;> split <;> omega

/-- A word shifted up and one below it stand side by side; copies of the sign bit are shifted
out. -/
theorem signExtend_shiftLeft_or (high low : BitVec 32) :
    (high.signExtend 64 <<< 32) ||| low.setWidth 64 = high ++ low := by
  apply BitVec.eq_of_getLsbD_eq
  intro j hj
  rw [BitVec.getLsbD_or, BitVec.getLsbD_shiftLeft, BitVec.getLsbD_setWidth, BitVec.getLsbD_append]
  by_cases h : j < 32
  · simp [h, hj]
  · have hhigh : j - 32 < 32 := by omega
    have hlow : low.getLsbD j = false := BitVec.getLsbD_of_ge _ _ (by omega)
    rw [BitVec.getLsbD_signExtend, hlow, if_neg h, if_pos hhigh]
    simp [h, hj]
    omega

theorem toBitVec_key (w : BitVec 64) :
    (key w).toBitVec =
      (ofStorage w).days.toBitVec ++ ((ofStorage w).millis.toBitVec ^^^ 0x80000000#32) :=
  signExtend_shiftLeft_or _ _

theorem toInt_key (w : BitVec 64) :
    (key w).toInt = (ofStorage w).days.toInt * 2 ^ 32 + ((ofStorage w).millis.toInt + 2 ^ 31) := by
  rw [← Int64.toInt_toBitVec, toBitVec_key, BitVec.toInt_append, toNat_flipSign,
    Int32.toInt_toBitVec, Int32.toInt_toBitVec, Int.mul_comm]
  rfl

/-! ### The order of keys -/

/-- A key is smaller for fewer days, or for fewer milliseconds of as many days. -/
theorem key_lt_iff (v w : BitVec 64) :
    key v < key w ↔ (ofStorage v).days < (ofStorage w).days ∨
      (ofStorage v).days = (ofStorage w).days ∧ (ofStorage v).millis < (ofStorage w).millis := by
  have hv := (ofStorage v).millis.le_toInt
  have hv' := (ofStorage v).millis.toInt_lt
  have hw := (ofStorage w).millis.le_toInt
  have hw' := (ofStorage w).millis.toInt_lt
  -- The lower part of a key is less than `2 ^ 32`, so the upper parts decide unless they are equal.
  rw [Int64.lt_iff_toInt_lt, Int32.lt_iff_toInt_lt, Int32.lt_iff_toInt_lt, ← Int32.toInt_inj,
    toInt_key, toInt_key]
  omega

/-- Keys are ordered as the intervals are. -/
theorem key_le_iff (v w : BitVec 64) : key v ≤ key w ↔ (ofStorage v).Le (ofStorage w) := by
  rw [← Int64.not_lt, key_lt_iff, Le]
  simp only [Int32.lt_iff_toInt_lt, Int32.le_iff_toInt_le, ← Int32.toInt_inj]
  omega

/-- A key determines its storage word. -/
theorem key_injective {v w : BitVec 64} (h : key v = key w) : v = w := by
  have hlt : ¬ key v < key w := fun hlt => Int64.ne_of_lt hlt h
  have hgt : ¬ key w < key v := fun hgt => Int64.ne_of_lt hgt h.symm
  rw [key_lt_iff] at hlt hgt
  simp only [Int32.lt_iff_toInt_lt, ← Int32.toInt_inj] at hlt hgt
  have hdays : (ofStorage v).days = (ofStorage w).days := Int32.toInt_inj.mp (by omega)
  have hmillis : (ofStorage v).millis = (ofStorage w).millis := Int32.toInt_inj.mp (by omega)
  rw [← toStorage_ofStorage v, ← toStorage_ofStorage w, toStorage, toStorage, hdays, hmillis]

/-- Every signed number is a key. -/
theorem key_surjective (k : Int64) : ∃ w, key w = k := by
  -- The days of a key are in its high half, where a storage word has the milliseconds.
  let halves := ofStorage k.toBitVec
  let i : Interval := ⟨halves.millis, .ofBitVec (halves.days.toBitVec ^^^ 0x80000000#32)⟩
  have hmillis : i.millis.toBitVec ^^^ 0x80000000#32 = halves.days.toBitVec := by
    rw [Int32.toBitVec_ofBitVec, BitVec.xor_assoc, BitVec.xor_self, BitVec.xor_zero]
  have hhalves : halves.millis.toBitVec ++ halves.days.toBitVec = k.toBitVec := by
    rw [← toStorage_eq_append, toStorage_ofStorage]
  refine ⟨i.toStorage, Int64.toBitVec_inj.mp ?_⟩
  rw [toBitVec_key, ofStorage_toStorage, hmillis, hhalves]

end Interval

namespace Fold

/-- The storage word whose key is ahead; the first one on a tie. -/
def intervalPick (e : Extremum) (v w : BitVec 64) : BitVec 64 :=
  if beyond e (Interval.key w) (Interval.key v) then w else v

/-- The key of an identity is that of the integers in which keys are compared. -/
theorem key_intervalIdentity (e : Extremum) :
    Interval.key (intervalIdentity e) = int64Identity e := by
  cases e with
  | min => decide
  | max => decide

/-- Every key is ahead of the identity's. -/
theorem ahead_intervalIdentity (e : Extremum) (v : BitVec 64) :
    e.Ahead (· ≤ ·) (Interval.key v) (Interval.key (intervalIdentity e)) := by
  rw [key_intervalIdentity]
  exact ahead_int64Identity e _

/-- Intervals, storage words and signed numbers correspond one to one: words are the intervals
packed, keys are the words in the order of the intervals. The identities have the last and the first
key, and blending takes one of two keys as it is. -/
theorem interval_keys_in_order (i j : Interval) (v w : BitVec 64) (k : Int64) (e : Extremum)
    (valid : Bool) :
    Interval.ofStorage i.toStorage = i ∧ (Interval.ofStorage w).toStorage = w ∧
      (Interval.key i.toStorage < Interval.key j.toStorage ↔
        i.days < j.days ∨ i.days = j.days ∧ i.millis < j.millis) ∧
      (Interval.key v = Interval.key w ↔ v = w) ∧ (∃ u, Interval.key u = k) ∧
      Interval.key (intervalIdentity .min) = Int64.maxValue ∧
      Interval.key (intervalIdentity .max) = Int64.minValue ∧
      blend valid (Interval.key w) (Interval.key (intervalIdentity e)) =
        if valid then Interval.key w else Interval.key (intervalIdentity e) := by
  have horder := Interval.key_lt_iff i.toStorage j.toStorage
  rw [Interval.ofStorage_toStorage, Interval.ofStorage_toStorage] at horder
  have hkeys : Interval.key v = Interval.key w ↔ v = w :=
    ⟨Interval.key_injective, congrArg Interval.key⟩
  exact ⟨Interval.ofStorage_toStorage i, Interval.toStorage_ofStorage w, horder, hkeys,
    Interval.key_surjective k, key_intervalIdentity .min, key_intervalIdentity .max,
    blend_int64 valid _ _⟩

/-- A key that another one is ahead of is not beyond it. -/
theorem beyond_eq_false {e : Extremum} {x y : Int64} (h : e.Ahead (· ≤ ·) y x) :
    beyond e x y = false := by
  cases e with
  | min => exact decide_eq_false (Int64.not_lt.mpr h)
  | max => exact decide_eq_false (Int64.not_lt.mpr h)

theorem ahead_of_beyond {e : Extremum} {x y : Int64} (h : beyond e x y = true) :
    e.Ahead (· ≤ ·) x y := by
  cases e with
  | min => exact Int64.le_of_lt (of_decide_eq_true h)
  | max => exact Int64.le_of_lt (of_decide_eq_true h)

theorem ahead_of_not_beyond {e : Extremum} {x y : Int64} (h : ¬ beyond e x y = true) :
    e.Ahead (· ≤ ·) y x := by
  rw [Bool.not_eq_true] at h
  cases e with
  | min => exact Int64.not_lt.mp (of_decide_eq_false h)
  | max => exact Int64.not_lt.mp (of_decide_eq_false h)

/-- A row is picked if it is not null. A null row changes nothing: the key it is folded with is
beyond no other. -/
theorem interval_eq (e : Extremum) (current incoming : BitVec 64) (valid : Bool) :
    interval e current incoming valid =
      if valid then intervalPick e current incoming else current := by
  rw [interval, blend_int64]
  cases valid with
  | false => simp [beyond_eq_false (ahead_intervalIdentity e current)]
  | true => rfl

theorem selects_intervalPick (e : Extremum) :
    Selects (fun _ => True)
      (fun v w => e.Ahead (· ≤ ·) (Interval.key v) (Interval.key w)) (intervalPick e) where
  refl := fun v => Extremum.Ahead.refl Int64.le_refl (Interval.key v)
  trans := fun _ _ _ huv hvw => huv.trans hvw fun _ _ _ => Int64.le_trans
  choice := by
    intro v w _ _
    unfold intervalPick
    split
    · exact Or.inr rfl
    · exact Or.inl rfl
  ahead_left := by
    intro v w _ _
    unfold intervalPick
    split
    case isTrue h => exact ahead_of_beyond h
    case isFalse => exact Extremum.Ahead.refl Int64.le_refl _
  ahead_right := by
    intro v w _ _
    unfold intervalPick
    split
    case isTrue => exact Extremum.Ahead.refl Int64.le_refl _
    case isFalse h => exact ahead_of_not_beyond h

/-- Words whose keys are ahead of each other are equal. -/
theorem eq_of_ahead_key {e : Extremum} {v w : BitVec 64}
    (hvw : e.Ahead (· ≤ ·) (Interval.key v) (Interval.key w))
    (hwv : e.Ahead (· ≤ ·) (Interval.key w) (Interval.key v)) : v = w :=
  Interval.key_injective (hvw.antisymm hwv fun _ _ => Int64.le_antisymm)

/-- Picking through storage words ends at the one of an extreme interval. -/
theorem foldl_intervalPick (e : Extremum) {is : List Interval} (hne : is ≠ []) :
    ∃ i, e.IsExtreme Interval.Le i is ∧
      (is.map Interval.toStorage).foldl (intervalPick e) (intervalIdentity e) = i.toStorage := by
  have hmap : is.map Interval.toStorage ≠ [] := by simpa using hne
  obtain ⟨hmem, hall⟩ := (selects_intervalPick e).foldl_mem
    (fun _ _ => eq_of_ahead_key) trivial (fun v _ => ahead_intervalIdentity e v)
    (fun _ _ => trivial) hmap
  obtain ⟨i, hi, heq⟩ := List.mem_map.mp hmem
  refine ⟨i, ⟨hi, ?_⟩, heq.symm⟩
  intro j hj
  have hahead := hall j.toStorage (List.mem_map_of_mem hj)
  rw [← heq] at hahead
  cases e with
  | min => simpa [Extremum.Ahead, Interval.key_le_iff, Interval.ofStorage_toStorage] using hahead
  | max => simpa [Extremum.Ahead, Interval.key_le_iff, Interval.ofStorage_toStorage] using hahead

/-- Picking through lists of the same words ends at the same one. -/
theorem foldl_intervalPick_congr (e : Extremum) (s : BitVec 64) {vs ws : List (BitVec 64)}
    (hmem : ∀ v, v ∈ vs ↔ v ∈ ws) : vs.foldl (intervalPick e) s = ws.foldl (intervalPick e) s := by
  have hforth := (selects_intervalPick e).ahead_foldl (s := s) trivial (fun _ _ => trivial) hmem
  have hback := (selects_intervalPick e).ahead_foldl (s := s) trivial (fun _ _ => trivial)
    fun v => (hmem v).symm
  exact eq_of_ahead_key hforth hback

end Fold

end GroupedExtrema
