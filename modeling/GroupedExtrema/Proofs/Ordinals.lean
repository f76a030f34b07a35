import GroupedExtrema.Proofs.Regions

/-!
# Ordinals and the chunks they need

Shift, mask and word split give each ordinal a place of its own: a chunk, a word of the chunk and a
bit of the word. All places are taken, up to the chunk of the largest ordinal.

The two counts of chunks, one for an ordinal and one for a number of groups, are the least ones that
do. This is why it is enough to grow for the largest ordinal of a batch, and why growing adds no
chunk that none of the ordinals needs.
-/

namespace GroupedExtrema

namespace ChunkLayout

/-! ### Places -/

/-- What the slots of ordinals are in a layout: the slots of the first `2 ^ (32 - bits)` chunks, each
of them the slot of one ordinal, with a bit of its own in the words of its chunk. -/
structure NumbersSlots (l : ChunkLayout) : Prop where
  ordinal_eq : ∀ o : UInt32, o.toNat = (l.address o).chunk * l.capacity + (l.address o).offset
  chunk_lt : ∀ o : UInt32, (l.address o).chunk < 2 ^ (32 - l.bits)
  offset_lt : ∀ o : UInt32, (l.address o).offset < l.capacity
  word_lt : ∀ o : UInt32, (l.address o).word < l.wordsPerChunk
  bit_lt : ∀ o : UInt32, (l.address o).bit < 32
  offset_eq : ∀ o : UInt32, (l.address o).offset = 32 * (l.address o).word + (l.address o).bit
  /-- Different ordinals differ in the chunk, in the word or in the bit. -/
  injective : ∀ o o' : UInt32, (l.address o).chunk = (l.address o').chunk →
    (l.address o).word = (l.address o').word → (l.address o).bit = (l.address o').bit → o = o'
  /-- No place is left out. -/
  surjective : ∀ chunk < 2 ^ (32 - l.bits), ∀ word < l.wordsPerChunk, ∀ bit < 32,
    ∃ o : UInt32, (l.address o).chunk = chunk ∧ (l.address o).word = word ∧ (l.address o).bit = bit

theorem address_injective (l : ChunkLayout) {o o' : UInt32} (h : l.address o = l.address o') :
    o = o' := by
  rw [address_eq_slot, address_eq_slot] at h
  exact UInt32.toNat_inj.mp (l.slot_injective h)

theorem numbersSlots (l : ChunkLayout) : l.NumbersSlots := by
  have hoffset (o : UInt32) : (l.address o).offset < l.capacity := by
    rw [address_eq_slot]
    exact l.slot_offset_lt o.toNat
  refine ⟨?_, ?_, hoffset, fun o => SlotAddress.word_lt (hoffset o),
    fun o => (l.address o).bit_lt, fun o => (l.address o).offset_eq, ?_, ?_⟩
  · intro o
    rw [address_eq_slot]
    exact (Nat.div_add_mod' o.toNat l.capacity).symm
  · intro o
    rw [address_eq_slot]
    exact l.slot_chunk_lt o
  · intro o o' hchunk hword hbit
    have hoffset := SlotAddress.offset_eq_of_word_bit hword hbit
    refine l.address_injective ?_
    rw [show l.address o = ⟨(l.address o).chunk, (l.address o).offset⟩ from rfl, hchunk, hoffset]
  · intro chunk hchunk word hword bit hbit
    have hcapacity := l.mul_wordsPerChunk
    obtain ⟨o, ho⟩ := l.exists_slot_eq hchunk (show 32 * word + bit < l.capacity by omega)
    refine ⟨o, ?_⟩
    rw [address_eq_slot, ho, SlotAddress.word_eq_div, SlotAddress.bit_eq_mod]
    dsimp only
    omega

end ChunkLayout

/-! ### Growing for ordinals -/

namespace SlotTable

variable {α : Type}

/-- All parts of the slot of an ordinal are there: the ordinal passes the check, the validity bit can
be read, and so can each of the cells of the chunk. -/
structure HasSlot (cellsPerChunk : Nat) (t : SlotTable α) (o : UInt32) : Prop where
  checkAllocated_eq : t.checkAllocated o = .ok ()
  isSome_bit : (t.validity.isValid? (t.layout.address o)).isSome
  isSome_cell : ∀ i < cellsPerChunk, (t.cells.get? (t.layout.address o).chunk i).isSome

variable {l : ChunkLayout} {cellsPerChunk cellBytes : Nat} {identity : α} {t : SlotTable α}

/-- A table with the chunk of an ordinal has its slot. -/
theorem HasShape.hasSlot (h : HasShape l cellsPerChunk cellBytes identity t) {o : UInt32}
    (ho : (l.address o).chunk < t.size) : t.HasSlot cellsPerChunk o := by
  obtain rfl := h.layout_eq
  have hword := (t.layout.numbersSlots).word_lt o
  refine ⟨if_pos ho, ?_, ?_⟩
  · rw [ValidityMap.isValid?, Option.isSome_map, h.wellFormed.words.isSome_get?_iff,
      h.wellFormed.size_words, h.wellFormed.length_words]
    exact ⟨ho, hword⟩
  · intro i hi
    rw [h.wellFormed.cells.isSome_get?_iff, h.length_cells]
    exact ⟨ho, hi⟩

/-- Growing for some ordinals, where it succeeds, leaves exactly as many chunks as the table had or
as the ordinals need. -/
theorem HasShape.size_ensureOrdinals_le_iff (h : HasShape l cellsPerChunk cellBytes identity t)
    {budget : Budget} {ordinals : List UInt32}
    (hok : (t.ensureOrdinals budget ordinals).1 = .ok ()) (k : Nat) :
    (t.ensureOrdinals budget ordinals).2.1.size ≤ k ↔
      t.size ≤ k ∧ ∀ o ∈ ordinals, (l.address o).chunk < k := by
  have hneeds : l.chunksForOrdinals ordinals ≤ k ↔ ∀ o ∈ ordinals, (l.address o).chunk < k := by
    simp only [ChunkLayout.chunksForOrdinals_le_iff, ChunkLayout.address_eq_slot]
  rw [ensureOrdinals_eq, h.layout_eq] at hok ⊢
  rw [← hneeds]
  rcases h.wellFormed.ensureChunks_cases budget (l.chunksForOrdinals ordinals) with ⟨e, heq⟩ | heq
  · rw [heq] at hok
    exact absurd hok (by simp)
  · rw [heq, size_extend]
    omega

/-- Growing for some ordinals, where it succeeds, makes the slots of all of them. -/
theorem HasShape.hasSlot_ensureOrdinals (h : HasShape l cellsPerChunk cellBytes identity t)
    {budget : Budget} {ordinals : List UInt32}
    (hok : (t.ensureOrdinals budget ordinals).1 = .ok ()) :
    ∀ o ∈ ordinals, (t.ensureOrdinals budget ordinals).2.1.HasSlot cellsPerChunk o := by
  have hgrown : HasShape l cellsPerChunk cellBytes identity
      (t.ensureOrdinals budget ordinals).2.1 := by
    rw [ensureOrdinals_eq]
    exact h.ensureChunks budget _
  obtain ⟨-, hall⟩ := (h.size_ensureOrdinals_le_iff hok _).mp (Nat.le_refl _)
  exact fun o ho => hgrown.hasSlot (hall o ho)

end SlotTable

namespace ChunkLayout

/-! ### Counts of chunks -/

/-- The counts of chunks that a layout gives are the least ones that do, and tables of the layout
grow to them. -/
structure CountsChunks (l : ChunkLayout) : Prop where
  chunksForOrdinal_le_iff : ∀ (o : UInt32) (k : Nat),
    l.chunksForOrdinal o ≤ k ↔ (l.address o).chunk < k
  chunksForGroups_le_iff : ∀ n k : Nat, l.chunksForGroups n ≤ k ↔ n ≤ k * l.capacity
  /-- The groups are numbered from zero on, so the last one of them is `n - 1`. -/
  chunksForGroups_eq : ∀ n : Nat, 1 ≤ n → n ≤ 2 ^ 32 →
    l.chunksForGroups n = l.chunksForOrdinal (UInt32.ofNat (n - 1))
  hasSlot_of_ensureOrdinals : ∀ {α : Type} {cellsPerChunk cellBytes : Nat} {identity : α}
    {t : SlotTable α}, SlotTable.Reachable l cellsPerChunk cellBytes identity t →
    ∀ (budget : Budget) (ordinals : List UInt32),
      (t.ensureOrdinals budget ordinals).1 = .ok () →
        ∀ o ∈ ordinals, (t.ensureOrdinals budget ordinals).2.1.HasSlot cellsPerChunk o
  /-- Growing makes no chunk that was not asked for. -/
  size_ensureOrdinals_le_iff : ∀ {α : Type} {cellsPerChunk cellBytes : Nat} {identity : α}
    {t : SlotTable α}, SlotTable.Reachable l cellsPerChunk cellBytes identity t →
    ∀ (budget : Budget) (ordinals : List UInt32),
      (t.ensureOrdinals budget ordinals).1 = .ok () →
        ∀ k, (t.ensureOrdinals budget ordinals).2.1.size ≤ k ↔
          t.size ≤ k ∧ ∀ o ∈ ordinals, (l.address o).chunk < k

theorem countsChunks (l : ChunkLayout) : l.CountsChunks where
  chunksForOrdinal_le_iff o k := by
    rw [address_eq_slot]
    exact l.chunksForOrdinal_le_iff o k
  chunksForGroups_le_iff := l.chunksForGroups_le_iff
  chunksForGroups_eq _ := l.chunksForGroups_eq
  hasSlot_of_ensureOrdinals h _ _ := h.hasShape.hasSlot_ensureOrdinals
  size_ensureOrdinals_le_iff h _ _ := h.hasShape.size_ensureOrdinals_le_iff

/-- In every layout the ordinals number the slots, one by one, and the counts of chunks are exact. -/
theorem ordinals_number_slots (l : ChunkLayout) : l.NumbersSlots ∧ l.CountsChunks :=
  ⟨l.numbersSlots, l.countsChunks⟩

end ChunkLayout

end GroupedExtrema
