import GroupedExtrema.Column.Bitmap

/-!
# Readers of bitmaps

A bitmap always has the bytes that its bits take, if its length can be rounded up to bytes at all.
All of its readers then find a bit of the list in the same place, bit `i % 8` of byte `i / 8`: the
checked one, the one that shifts and masks, and the one that assembles eight bytes to a 64-bit word
first.
-/

namespace GroupedExtrema.Bitmap

/-- A bitmap has the bytes that its bits take, if not more. -/
def WellFormed (b : Bitmap) : Prop := (b.length + 7) / 8 ≤ b.bytes.size

instance (b : Bitmap) : Decidable b.WellFormed :=
  inferInstanceAs (Decidable ((b.length + 7) / 8 ≤ b.bytes.size))

/-- A length that can be rounded up to bytes in 64 bits. With any other one a bitmap that is filled
has no byte (`get?_replicate_of_not_roundsUp`). -/
def RoundsUp (length : Nat) : Prop := length + 7 < 2 ^ 64

instance (length : Nat) : Decidable (RoundsUp length) :=
  inferInstanceAs (Decidable (length + 7 < 2 ^ 64))

theorem RoundsUp.of_succ {length : Nat} (h : RoundsUp (length + 1)) : RoundsUp length := by
  unfold RoundsUp at h ⊢
  omega

/-! ### Building -/

theorem wellFormed_empty : empty.WellFormed := by decide

theorem RoundsUp.byteCount_eq {length : Nat} (h : RoundsUp length) :
    byteCount length = (length + 7) / 8 := by
  rw [byteCount, Nat.mod_eq_of_lt h]

@[simp] theorem length_replicate (length : Nat) (value : Bool) :
    (replicate length value).length = length := by
  rw [replicate]
  split <;> rfl

@[simp] theorem size_bytes_replicate (length : Nat) (value : Bool) :
    (replicate length value).bytes.size = byteCount length := by
  rw [replicate]
  split <;> simp

theorem wellFormed_replicate {length : Nat} (h : RoundsUp length) (value : Bool) :
    (replicate length value).WellFormed := by
  apply Nat.le_of_eq
  rw [size_bytes_replicate, h.byteCount_eq, length_replicate]

/-- A length of 64 bits that cannot be rounded up gets no byte, so none of its bits can be read. -/
theorem get?_replicate_of_not_roundsUp {length : Nat} (h : ¬RoundsUp length)
    (hlength : length < 2 ^ 64) (value : Bool) (i : Nat) :
    (replicate length value).get? i = none := by
  have hsize : (replicate length value).bytes.size = 0 := by
    rw [size_bytes_replicate, byteCount]
    unfold RoundsUp at h
    omega
  rw [get?, Array.getElem?_eq_none (by omega), Option.map_none, ite_self]

@[simp] theorem length_ofBlocks (blocks : List (List Bool)) :
    (ofBlocks blocks).length = (blocks.map List.length).sum := rfl

@[simp] theorem size_bytes_ofBlocks (blocks : List (List Bool)) :
    (ofBlocks blocks).bytes.size = blocks.length := by
  simp [ofBlocks]

/-- No block has more bits than a byte, whatever part of one is begun. -/
theorem length_le_of_mem_blocks {block : List Bool} (hblock : block.length < 8) (answers : Answers) :
    ∀ bits ∈ blocks block answers, bits.length ≤ 8 := by
  induction answers generalizing block with
  | nil =>
      rw [blocks]
      split
      case isTrue => simp
      case isFalse => simpa using Nat.le_of_lt hblock
  | cons answer answers ih =>
      have hrest := ih (show ([] : List Bool).length < 8 by decide)
      cases answer with
      | none =>
          rw [blocks]
          split
          case isTrue => simp
          case isFalse => exact List.forall_mem_cons.mpr ⟨Nat.le_of_lt hblock, hrest⟩
      | some bit =>
          rw [blocks]
          split
          case isTrue hfull => exact List.forall_mem_cons.mpr ⟨by simp [hfull], hrest⟩
          case isFalse hbegun =>
              apply ih
              rw [List.length_append, List.length_singleton]
              omega

theorem sum_length_le {blocks : List (List Bool)} (h : ∀ bits ∈ blocks, bits.length ≤ 8) :
    (blocks.map List.length).sum ≤ 8 * blocks.length := by
  induction blocks with
  | nil => simp
  | cons block blocks ih =>
      obtain ⟨hblock, hblocks⟩ := List.forall_mem_cons.mp h
      have hsum := ih hblocks
      rw [List.map_cons, List.sum_cons, List.length_cons]
      omega

theorem wellFormed_ofBlocks {blocks : List (List Bool)} (h : ∀ bits ∈ blocks, bits.length ≤ 8) :
    (ofBlocks blocks).WellFormed := by
  have hlength := sum_length_le h
  rw [WellFormed, length_ofBlocks, size_bytes_ofBlocks]
  omega

/-- Whatever the iterator does, there is a byte for every bit that it has given. -/
theorem wellFormed_collect (answers : Answers) : (collect answers).WellFormed :=
  wellFormed_ofBlocks (length_le_of_mem_blocks (by decide) answers)

/-- An iterator that goes on after its end: two bits in two bytes. -/
example : (collect [some true, none, some true]).length = 2 ∧
    (collect [some true, none, some true]).bytes = #[1, 1] := by decide

@[simp] theorem length_push (b : Bitmap) (value : Bool) :
    (b.push value).length = b.length + 1 := rfl

theorem size_bytes_push (b : Bitmap) (value : Bool) :
    (b.push value).bytes.size = if b.length % 8 = 0 then b.bytes.size + 1 else b.bytes.size := by
  rw [push, Array.size_modify]
  split
  · exact Array.size_push 0#8
  · rfl

theorem WellFormed.push {b : Bitmap} (h : b.WellFormed) (value : Bool) :
    (b.push value).WellFormed := by
  unfold WellFormed at h ⊢
  rw [length_push, size_bytes_push]
  split <;> omega

/-- All that setting a bit does, and only to a bitmap that has the bit. -/
theorem eq_of_set? {b b' : Bitmap} {i : Nat} {value : Bool} (h : b.set? i value = some b') :
    i < b.length ∧ b' = { b with bytes := b.bytes.modify (i / 8) (putBit · (i % 8) value) } := by
  unfold set? at h
  split at h
  case isTrue hi => exact ⟨hi.1, (Option.some.inj h).symm⟩
  case isFalse => exact absurd h (by simp)

theorem length_of_set? {b b' : Bitmap} {i : Nat} {value : Bool} (h : b.set? i value = some b') :
    b'.length = b.length := by
  rw [(eq_of_set? h).2]

theorem WellFormed.set? {b b' : Bitmap} (h : b.WellFormed) {i : Nat} {value : Bool}
    (hset : b.set? i value = some b') : b'.WellFormed := by
  rw [(eq_of_set? hset).2, WellFormed, Array.size_modify]
  exact h

/-! ### Reading -/

/-- Every bit of the list has its byte. -/
theorem WellFormed.exists_get? {b : Bitmap} (h : b.WellFormed) {i : Nat} (hi : i < b.length) :
    ∃ v, b.get? i = some v := by
  have hbyte : i / 8 < b.bytes.size := by
    unfold WellFormed at h
    omega
  rw [get?, if_pos hi, Array.getElem?_eq_getElem hbyte]
  exact ⟨_, rfl⟩

/-- Shift and mask find the byte and the bit. -/
theorem rawBit?_eq_get? {b : Bitmap} {i : Nat} (hi : i < b.length) : b.rawBit? i = b.get? i := by
  have hmask : i &&& 7 = i % 8 := Nat.and_two_pow_sub_one_eq_mod i 3
  rw [get?, if_pos hi, rawBit?, Nat.shiftRight_eq_div_pow, hmask]

/-- Byte `j / 8` of a word holds its bit `j`. -/
theorem getLsbD_littleEndian (bytes : List (BitVec 8)) {j : Nat} (hj : j < 64) :
    (littleEndian bytes).getLsbD j = (bytes[j / 8]?.getD 0).getLsbD (j % 8) := by
  induction bytes generalizing j with
  | nil => simp [littleEndian]
  | cons byte rest ih =>
      rw [littleEndian, BitVec.getLsbD_or, BitVec.getLsbD_shiftLeft, BitVec.getLsbD_setWidth]
      by_cases hlow : j < 8
      · have hdiv : j / 8 = 0 := by omega
        have hmod : j % 8 = j := by omega
        simp [hlow, hj, hdiv, hmod]
      · -- The byte is past its width; the rest starts eight bits further up.
        have hdiv : j / 8 = (j - 8) / 8 + 1 := by omega
        have hmod : j % 8 = (j - 8) % 8 := by omega
        have hbyte : byte.getLsbD j = false := BitVec.getLsbD_of_ge byte j (by omega)
        rw [hdiv, List.getElem?_cons_succ, hmod, ← ih (by omega), hbyte]
        simp [hlow, hj]

/-- The word of a bit holds the byte of the bit. -/
theorem wordBit_eq (b : Bitmap) (i : Nat) :
    b.wordBit i = (b.bytes[i / 8]?.getD 0).getLsbD (i % 8) := by
  have hbyte : i % 64 / 8 < 8 := by omega
  have hplace : 8 * (i / 64) + i % 64 / 8 = i / 8 := by omega
  have hmod : i % 64 % 8 = i % 8 := by omega
  rw [wordBit, word64, getLsbD_littleEndian _ (Nat.mod_lt i (by decide)), Array.getElem?_toList,
    Array.getElem?_extract, hmod, hplace]
  by_cases hsize : i / 8 < b.bytes.size
  · rw [if_pos (by omega)]
  · rw [Array.getElem?_eq_none (by omega), ite_self]

theorem wordBit_of_get? {b : Bitmap} {i : Nat} {v : Bool} (h : b.get? i = some v) :
    b.wordBit i = v := by
  unfold get? at h
  split at h
  · rw [wordBit_eq]
    cases hbyte : b.bytes[i / 8]? with
    | none => simp [hbyte] at h
    | some byte => simpa [hbyte] using h
  · exact absurd h (by simp)

end GroupedExtrema.Bitmap
