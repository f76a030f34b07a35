import GroupedExtrema.Proofs.Addressing
import GroupedExtrema.Proofs.ChunkStore
import GroupedExtrema.Storage.SlotTable

/-!
# Slot tables as growing tables

The two regions of a table always have the same number of chunks, and the validity region has a word
for every 32 slots. Growing either adds the missing chunks to both regions or leaves table and
budget exactly as they were: what one region had added before the other one failed is cut off again,
and its bytes are given back.
-/

namespace GroupedExtrema.SlotTable

variable {α : Type}

/-- Both regions are well-formed and have the same number of chunks. -/
structure WellFormed (t : SlotTable α) : Prop where
  cells : t.cells.WellFormed
  words : t.validity.words.WellFormed
  size_words : t.validity.words.size = t.size
  length_words : t.validity.words.chunkLength = t.layout.wordsPerChunk

theorem wellFormed_empty (l : ChunkLayout) (cellsPerChunk cellBytes : Nat) (identity : α) :
    (empty l cellsPerChunk cellBytes identity).WellFormed :=
  ⟨ChunkStore.wellFormed_empty _ _, ChunkStore.wellFormed_empty _ _, rfl, rfl⟩

/-- Bytes of one chunk of both regions. -/
def chunkBytes (t : SlotTable α) : Nat := t.cells.chunkBytes + t.validity.words.chunkBytes

/-! ### Growing -/

/-- The table with `n` more chunks of slots into which nothing has been folded. -/
def extend (t : SlotTable α) (n : Nat) : SlotTable α :=
  { t with
    cells := t.cells.extend n t.identity
    validity := ⟨t.validity.words.extend n 0⟩ }

@[simp] theorem size_extend (t : SlotTable α) (n : Nat) : (t.extend n).size = t.size + n :=
  t.cells.size_extend n t.identity

@[simp] theorem extend_zero (t : SlotTable α) : t.extend 0 = t := by
  simp [extend]

theorem WellFormed.extend {t : SlotTable α} (h : t.WellFormed) (n : Nat) :
    (t.extend n).WellFormed where
  cells := h.cells.extend n t.identity
  words := h.words.extend n 0
  size_words := by
    rw [size_extend, ← h.size_words]
    exact t.validity.words.size_extend n 0
  length_words := h.length_words

/-- Cutting back what has been added, however much it is in either region, undoes the growth. -/
theorem WellFormed.truncate_extend {t : SlotTable α} (h : t.WellFormed) (budget : Budget)
    (m n : Nat) :
    SlotTable.truncate { t with
        cells := t.cells.extend m t.identity
        validity := ⟨t.validity.words.extend n 0⟩ }
      ((budget.charge (m * t.cells.chunkBytes)).charge (n * t.validity.words.chunkBytes)) t.size =
      (t, budget) := by
  have hcells := h.cells.truncate_extend m t.identity
    (budget.charge (n * t.validity.words.chunkBytes))
  have hwords := h.words.truncate_extend n 0 budget
  rw [h.size_words] at hwords
  rw [Budget.charge_right_comm]
  unfold truncate ValidityMap.truncate
  rw [show t.size = t.cells.size from rfl] at hwords ⊢
  simp only [hcells, hwords]

/-- Growing fails and leaves no trace, or it adds the missing chunks to both regions. -/
theorem WellFormed.ensureChunks_cases {t : SlotTable α} (h : t.WellFormed) (budget : Budget)
    (chunks : Nat) :
    (∃ e, t.ensureChunks budget chunks = (.error e, t, budget)) ∨
      t.ensureChunks budget chunks =
        (.ok (), t.extend (chunks - t.size), budget.charge ((chunks - t.size) * t.chunkBytes)) := by
  unfold ensureChunks
  split
  case isTrue hle =>
      rw [Nat.sub_eq_zero_of_le hle, extend_zero, Nat.zero_mul, Budget.charge_zero]
      exact Or.inr rfl
  case isFalse hlt =>
      obtain ⟨m, -, r, hcells, hm⟩ := t.cells.grow_eq budget chunks t.identity
      rw [hcells]
      cases r with
      | error e =>
          -- Only the value region has grown.
          have hundo := h.truncate_extend budget m 0
          rw [Nat.zero_mul, Budget.charge_zero, ChunkStore.extend_zero] at hundo
          exact Or.inl ⟨e, congrArg (Prod.mk _) hundo⟩
      | ok k =>
          obtain ⟨n, -, r, hwords, hn⟩ :=
            t.validity.words.grow_eq (budget.charge (m * t.cells.chunkBytes)) chunks 0
          simp only [ValidityMap.grow, hwords]
          cases r with
          | error e => exact Or.inl ⟨e, congrArg (Prod.mk _) (h.truncate_extend budget m n)⟩
          | ok k' =>
              -- Both regions have grown by all the missing chunks, which are as many.
              have hm : m = chunks - t.size := hm ⟨k, rfl⟩
              have hn : n = chunks - t.size := by
                rw [hn ⟨k', rfl⟩, h.size_words]
              rw [Budget.charge_charge, hm, hn, ← Nat.mul_add]
              exact Or.inr rfl

/-- Growing for ordinals is growing to the number of chunks they need. -/
theorem ensureOrdinals_eq (t : SlotTable α) (budget : Budget) (ordinals : List UInt32) :
    t.ensureOrdinals budget ordinals =
      t.ensureChunks budget (t.layout.chunksForOrdinals ordinals) := by
  unfold ensureOrdinals ChunkLayout.chunksForOrdinals
  cases ordinals.max? with
  | none => exact (if_pos (Nat.zero_le t.size)).symm
  | some largest => rfl

/-- The missing chunks for some ordinals make room for all of them. -/
theorem slot_chunk_lt_extend (t : SlotTable α) (ordinals : List UInt32) :
    ∀ o ∈ ordinals, (t.layout.slot o.toNat).chunk <
      (t.extend (t.layout.chunksForOrdinals ordinals - t.size)).size := by
  rw [← ChunkLayout.chunksForOrdinals_le_iff, size_extend]
  omega

/-! ### Writing -/

theorem WellFormed.updateCells {t : SlotTable α} (h : t.WellFormed) (chunk offset : Nat)
    (f : α → α) : WellFormed { t with cells := t.cells.update chunk offset f } where
  cells := h.cells.update chunk offset f
  words := h.words
  size_words := h.size_words.trans (t.cells.size_update chunk offset f).symm
  length_words := h.length_words

theorem WellFormed.updateWords {t : SlotTable α} (h : t.WellFormed) (chunk word : Nat)
    (f : SlotWord → SlotWord) :
    WellFormed { t with validity := ⟨t.validity.words.update chunk word f⟩ } where
  cells := h.cells
  words := h.words.update chunk word f
  size_words := (t.validity.words.size_update chunk word f).trans h.size_words
  length_words := h.length_words

/-! ### Forgetting -/

@[simp] theorem size_reset (t : SlotTable α) : t.reset.size = t.size :=
  t.cells.size_fill t.identity

theorem WellFormed.reset {t : SlotTable α} (h : t.WellFormed) : t.reset.WellFormed where
  cells := h.cells.fill t.identity
  words := h.words.fill 0
  size_words := by
    rw [size_reset, ← h.size_words]
    exact t.validity.words.size_fill 0
  length_words := h.length_words

end GroupedExtrema.SlotTable
