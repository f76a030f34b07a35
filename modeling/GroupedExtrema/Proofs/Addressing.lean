import GroupedExtrema.Layout
import GroupedExtrema.Proofs.Extremum

/-!
# Addressing

The slots of a layout are numbered: slot `n` is the one at offset `n % capacity` of chunk
`n / capacity`. An ordinal is nothing but the number of its slot, so two ordinals share a slot only
if they are equal, and growing to the chunk of the largest ordinal makes the slots of all smaller
ones exist too.

The offset splits once more into the index of a 32-bit word and the place of a bit in that word.
-/

namespace GroupedExtrema

namespace ChunkLayout

/-! ### Capacities -/

theorem capacity_eq_two_pow (l : ChunkLayout) : l.capacity = 2 ^ l.bits := by
  rw [capacity, Nat.one_shiftLeft]

theorem capacity_pos (l : ChunkLayout) : 0 < l.capacity := by
  rw [capacity_eq_two_pow]
  exact Nat.two_pow_pos l.bits

/-- A chunk is a whole number of words, because a layout has at least five bits. -/
theorem mul_wordsPerChunk (l : ChunkLayout) : 32 * l.wordsPerChunk = l.capacity := by
  -- Five of the bits number the places in a word, the others the words.
  have hsplit : l.capacity = 32 * 2 ^ (l.bits - 5) := by
    rw [capacity_eq_two_pow, show (32 : Nat) = 2 ^ 5 from rfl, ← Nat.pow_add]
    congr 1
    have := l.le_bits
    omega
  rw [wordsPerChunk, Nat.shiftRight_eq_div_pow, hsplit]
  omega

/-! ### Numbered slots -/

/-- The slot with number `n`. -/
def slot (l : ChunkLayout) (n : Nat) : SlotAddress := ⟨n / l.capacity, n % l.capacity⟩

/-- Shift and mask are division and remainder by the capacity. -/
theorem address_eq_slot (l : ChunkLayout) (o : UInt32) : l.address o = l.slot o.toNat := by
  unfold address slot offsetMask
  rw [capacity_eq_two_pow, Nat.shiftRight_eq_div_pow, Nat.one_shiftLeft,
    Nat.and_two_pow_sub_one_eq_mod]

theorem slot_offset_lt (l : ChunkLayout) (n : Nat) : (l.slot n).offset < l.capacity :=
  Nat.mod_lt n l.capacity_pos

/-- The number of a slot is read off its chunk and offset. -/
theorem slot_mul_add (l : ChunkLayout) (chunk : Nat) {offset : Nat} (h : offset < l.capacity) :
    l.slot (chunk * l.capacity + offset) = ⟨chunk, offset⟩ := by
  unfold slot
  rw [Nat.add_comm, Nat.add_mul_div_right _ _ l.capacity_pos, Nat.add_mul_mod_self_right,
    Nat.div_eq_of_lt h, Nat.mod_eq_of_lt h, Nat.zero_add]

theorem slot_injective (l : ChunkLayout) {m n : Nat} (h : l.slot m = l.slot n) : m = n := by
  obtain ⟨hchunk, hoffset⟩ := SlotAddress.mk.inj h
  rw [← Nat.div_add_mod m l.capacity, ← Nat.div_add_mod n l.capacity, hchunk, hoffset]

/-- Ordinals reach `2 ^ (32 - bits)` chunks. -/
theorem two_pow_sub_mul_capacity (l : ChunkLayout) : 2 ^ (32 - l.bits) * l.capacity = 2 ^ 32 := by
  rw [capacity_eq_two_pow, ← Nat.pow_add, Nat.sub_add_cancel (by have := l.bits_le; omega)]

/-- No ordinal has its slot in a later chunk. -/
theorem slot_chunk_lt (l : ChunkLayout) (o : UInt32) :
    (l.slot o.toNat).chunk < 2 ^ (32 - l.bits) := by
  refine (Nat.div_lt_iff_lt_mul l.capacity_pos).mpr ?_
  rw [two_pow_sub_mul_capacity]
  exact o.toNat_lt

/-- Every slot of these chunks is that of an ordinal. -/
theorem exists_slot_eq (l : ChunkLayout) {chunk offset : Nat} (hchunk : chunk < 2 ^ (32 - l.bits))
    (hoffset : offset < l.capacity) : ∃ o : UInt32, l.slot o.toNat = ⟨chunk, offset⟩ := by
  have hlt : chunk * l.capacity + offset < 2 ^ 32 := by
    calc chunk * l.capacity + offset
      _ < (chunk + 1) * l.capacity := by
          rw [Nat.succ_mul]
          exact Nat.add_lt_add_left hoffset _
      _ ≤ 2 ^ (32 - l.bits) * l.capacity := Nat.mul_le_mul_right _ hchunk
      _ = 2 ^ 32 := l.two_pow_sub_mul_capacity
  refine ⟨UInt32.ofNat (chunk * l.capacity + offset), ?_⟩
  rw [UInt32.toNat_ofNat_of_lt' hlt, l.slot_mul_add chunk hoffset]

/-- Different slots of the same chunk have different offsets. -/
theorem slot_offset_ne (l : ChunkLayout) {m n : Nat} (hne : n ≠ m)
    (hchunk : (l.slot n).chunk = (l.slot m).chunk) : (l.slot n).offset ≠ (l.slot m).offset := by
  intro hoffset
  refine hne (l.slot_injective ?_)
  rw [show l.slot n = ⟨(l.slot n).chunk, (l.slot n).offset⟩ from rfl, hchunk, hoffset]

/-- The chunk of an ordinal is among the first `k` ones exactly if `k` chunks are enough for it. -/
theorem chunksForOrdinal_le_iff (l : ChunkLayout) (o : UInt32) (k : Nat) :
    l.chunksForOrdinal o ≤ k ↔ (l.slot o.toNat).chunk < k := by
  rw [← address_eq_slot]
  exact Iff.rfl

/-- Chunks are enough for some groups if they have a slot for each of them. -/
theorem chunksForGroups_le_iff (l : ChunkLayout) (n k : Nat) :
    l.chunksForGroups n ≤ k ↔ n ≤ k * l.capacity := by
  have hpos := l.capacity_pos
  rw [chunksForGroups, Nat.shiftRight_eq_div_pow, ← capacity_eq_two_pow,
    Nat.div_le_iff_le_mul_add_pred hpos, Nat.mul_comm k]
  omega

/-- Numbering the groups from zero on, they need the chunks that the last one of them needs. -/
theorem chunksForGroups_eq (l : ChunkLayout) {n : Nat} (hpos : 1 ≤ n) (hle : n ≤ 2 ^ 32) :
    l.chunksForGroups n = l.chunksForOrdinal (UInt32.ofNat (n - 1)) := by
  have hlt : n - 1 < 2 ^ 32 := by omega
  have hlast : (UInt32.ofNat (n - 1)).toNat = n - 1 := UInt32.toNat_ofNat_of_lt' hlt
  have hiff : ∀ k, l.chunksForGroups n ≤ k ↔ l.chunksForOrdinal (UInt32.ofNat (n - 1)) ≤ k := by
    intro k
    rw [chunksForGroups_le_iff, chunksForOrdinal_le_iff, hlast, slot,
      Nat.div_lt_iff_lt_mul l.capacity_pos]
    omega
  exact Nat.le_antisymm ((hiff _).mpr (Nat.le_refl _)) ((hiff _).mp (Nat.le_refl _))

/-- Smaller ordinals have their slots in earlier chunks, or in the same one. -/
theorem slot_chunk_le (l : ChunkLayout) {o o' : UInt32} (h : o ≤ o') :
    (l.slot o.toNat).chunk ≤ (l.slot o'.toNat).chunk :=
  Nat.div_le_div_right (UInt32.le_iff_toNat_le.mp h)

/-- The least number of chunks among which the slots of all ordinals are. -/
def chunksForOrdinals (l : ChunkLayout) (ordinals : List UInt32) : Nat :=
  match ordinals.max? with
  | some largest => l.chunksForOrdinal largest
  | none => 0

/-- Chunks are enough for some ordinals if they are enough for the largest one. -/
theorem chunksForOrdinals_le_iff (l : ChunkLayout) (ordinals : List UInt32) (k : Nat) :
    l.chunksForOrdinals ordinals ≤ k ↔ ∀ o ∈ ordinals, (l.slot o.toNat).chunk < k := by
  unfold chunksForOrdinals
  cases hmax : ordinals.max? with
  | none =>
      rw [List.max?_eq_none_iff] at hmax
      simp [hmax]
  | some largest =>
      obtain ⟨hmem, hle⟩ := List.max?_eq_some_iff.mp hmax
      rw [chunksForOrdinal_le_iff]
      exact ⟨fun hlargest o ho => Nat.lt_of_le_of_lt (l.slot_chunk_le (hle o ho)) hlargest,
        fun hall => hall largest hmem⟩

/-- Two lists of ordinals together need the chunks of the one that needs more. -/
theorem chunksForOrdinals_append (l : ChunkLayout) (os os' : List UInt32) :
    l.chunksForOrdinals (os ++ os') = max (l.chunksForOrdinals os) (l.chunksForOrdinals os') := by
  have hiff : ∀ k, l.chunksForOrdinals (os ++ os') ≤ k ↔
      max (l.chunksForOrdinals os) (l.chunksForOrdinals os') ≤ k := by
    intro k
    rw [Nat.max_le, chunksForOrdinals_le_iff, chunksForOrdinals_le_iff, chunksForOrdinals_le_iff,
      List.forall_mem_append]
  exact Nat.le_antisymm ((hiff _).mpr (Nat.le_refl _)) ((hiff _).mp (Nat.le_refl _))

end ChunkLayout

namespace SlotAddress

/-! ### Words and bits -/

theorem word_eq_div (a : SlotAddress) : a.word = a.offset / 32 := by
  rw [word, Nat.shiftRight_eq_div_pow]

theorem bit_eq_mod (a : SlotAddress) : a.bit = a.offset % 32 := by
  rw [bit, show (31 : Nat) = 2 ^ 5 - 1 from rfl, Nat.and_two_pow_sub_one_eq_mod]

theorem bit_lt (a : SlotAddress) : a.bit < 32 := by
  rw [bit_eq_mod]
  omega

/-- An offset is what its word and its bit say. -/
theorem offset_eq (a : SlotAddress) : a.offset = 32 * a.word + a.bit := by
  rw [word_eq_div, bit_eq_mod]
  omega

/-- The word of a slot lies within its chunk. -/
theorem word_lt {l : ChunkLayout} {a : SlotAddress} (h : a.offset < l.capacity) :
    a.word < l.wordsPerChunk := by
  have := l.mul_wordsPerChunk
  rw [word_eq_div]
  omega

/-- Different slots of a chunk have different bits. -/
theorem offset_eq_of_word_bit {a b : SlotAddress} (hword : a.word = b.word) (hbit : a.bit = b.bit) :
    a.offset = b.offset := by
  rw [a.offset_eq, b.offset_eq, hword, hbit]

end SlotAddress

end GroupedExtrema
