import GroupedExtrema.Proofs.Growth

/-!
# Growing is all or nothing

A table can be grown, written to, marked and reset in any order, and its budget may be used by
others in between. Whatever has happened to it, its two regions have as many chunks as each other,
of the lengths that the table was made with. So it is known in advance exactly when growing
succeeds, and what it leaves: all chunks that were missing, or nothing.
-/

namespace GroupedExtrema

namespace SlotTable

variable {α : Type} {l : ChunkLayout} {cellsPerChunk cellBytes : Nat} {identity : α}
  {t : SlotTable α}

/-! ### Shapes -/

/-- The table is well-formed, and its sizes and identity are those that it was made with. -/
structure HasShape (l : ChunkLayout) (cellsPerChunk cellBytes : Nat) (identity : α)
    (t : SlotTable α) : Prop where
  wellFormed : t.WellFormed
  layout_eq : t.layout = l
  identity_eq : t.identity = identity
  length_cells : t.cells.chunkLength = cellsPerChunk
  bytes_cells : t.cells.elementBytes = cellBytes
  bytes_words : t.validity.words.elementBytes = 4

theorem hasShape_empty (l : ChunkLayout) (cellsPerChunk cellBytes : Nat) (identity : α) :
    HasShape l cellsPerChunk cellBytes identity (empty l cellsPerChunk cellBytes identity) :=
  ⟨wellFormed_empty _ _ _ _, rfl, rfl, rfl, rfl, rfl⟩

namespace HasShape

theorem extend (h : HasShape l cellsPerChunk cellBytes identity t) (n : Nat) :
    HasShape l cellsPerChunk cellBytes identity (t.extend n) :=
  ⟨h.wellFormed.extend n, h.layout_eq, h.identity_eq, h.length_cells, h.bytes_cells, h.bytes_words⟩

theorem reset (h : HasShape l cellsPerChunk cellBytes identity t) :
    HasShape l cellsPerChunk cellBytes identity t.reset :=
  ⟨h.wellFormed.reset, h.layout_eq, h.identity_eq, h.length_cells, h.bytes_cells, h.bytes_words⟩

theorem updateCells (h : HasShape l cellsPerChunk cellBytes identity t) (chunk offset : Nat)
    (f : α → α) :
    HasShape l cellsPerChunk cellBytes identity
      { t with cells := t.cells.update chunk offset f } :=
  ⟨h.wellFormed.updateCells chunk offset f, h.layout_eq, h.identity_eq, h.length_cells,
    h.bytes_cells, h.bytes_words⟩

theorem updateWords (h : HasShape l cellsPerChunk cellBytes identity t) (chunk word : Nat)
    (f : SlotWord → SlotWord) :
    HasShape l cellsPerChunk cellBytes identity
      { t with validity := ⟨t.validity.words.update chunk word f⟩ } :=
  ⟨h.wellFormed.updateWords chunk word f, h.layout_eq, h.identity_eq, h.length_cells,
    h.bytes_cells, h.bytes_words⟩

/-- Growing keeps the shape, whether it succeeds or not. -/
theorem ensureChunks (h : HasShape l cellsPerChunk cellBytes identity t) (budget : Budget)
    (chunks : Nat) :
    HasShape l cellsPerChunk cellBytes identity (t.ensureChunks budget chunks).2.1 := by
  rcases h.wellFormed.ensureChunks_cases budget chunks with ⟨e, heq⟩ | heq
  · rw [heq]
    exact h
  · rw [heq]
    exact h.extend _

theorem cells_chunkBytes (h : HasShape l cellsPerChunk cellBytes identity t) :
    t.cells.chunkBytes = cellsPerChunk * cellBytes := by
  rw [ChunkStore.chunkBytes, h.length_cells, h.bytes_cells]

theorem words_length (h : HasShape l cellsPerChunk cellBytes identity t) :
    t.validity.words.chunkLength = l.wordsPerChunk := by
  rw [h.wellFormed.length_words, h.layout_eq]

theorem words_chunkBytes (h : HasShape l cellsPerChunk cellBytes identity t) :
    t.validity.words.chunkBytes = 4 * l.wordsPerChunk := by
  rw [ChunkStore.chunkBytes, h.words_length, h.bytes_words, Nat.mul_comm]

theorem chunkBytes_eq (h : HasShape l cellsPerChunk cellBytes identity t) :
    t.chunkBytes = cellsPerChunk * cellBytes + 4 * l.wordsPerChunk := by
  rw [chunkBytes, h.cells_chunkBytes, h.words_chunkBytes]

end HasShape

/-! ### Reachable tables -/

/-- A table made with some sizes and an identity, after any operations. Each one may find the budget
in a different state. -/
inductive Reachable (l : ChunkLayout) (cellsPerChunk cellBytes : Nat) (identity : α) :
    SlotTable α → Prop where
  /-- The table as it is made. -/
  | empty : Reachable l cellsPerChunk cellBytes identity (.empty l cellsPerChunk cellBytes identity)
  /-- Growing to a number of chunks, successful or not. -/
  | ensureChunks {t : SlotTable α} (h : Reachable l cellsPerChunk cellBytes identity t)
      (budget : Budget) (chunks : Nat) :
      Reachable l cellsPerChunk cellBytes identity (t.ensureChunks budget chunks).2.1
  /-- Growing for some ordinals, successful or not. -/
  | ensureOrdinals {t : SlotTable α} (h : Reachable l cellsPerChunk cellBytes identity t)
      (budget : Budget) (ordinals : List UInt32) :
      Reachable l cellsPerChunk cellBytes identity (t.ensureOrdinals budget ordinals).2.1
  /-- Changing a cell that exists. -/
  | modify {t : SlotTable α} (h : Reachable l cellsPerChunk cellBytes identity t)
      {chunk offset : Nat} {f : α → α} {cells : ChunkStore α}
      (hcells : t.cells.modify? chunk offset f = some cells) :
      Reachable l cellsPerChunk cellBytes identity { t with cells := cells }
  /-- Marking a slot that exists. -/
  | mark {t : SlotTable α} (h : Reachable l cellsPerChunk cellBytes identity t)
      {a : SlotAddress} {valid : Bool} {validity : ValidityMap}
      (hvalidity : t.validity.mark? a valid = some validity) :
      Reachable l cellsPerChunk cellBytes identity { t with validity := validity }
  /-- Forgetting everything. -/
  | reset {t : SlotTable α} (h : Reachable l cellsPerChunk cellBytes identity t) :
      Reachable l cellsPerChunk cellBytes identity t.reset

theorem Reachable.hasShape (h : Reachable l cellsPerChunk cellBytes identity t) :
    HasShape l cellsPerChunk cellBytes identity t := by
  induction h with
  | empty => exact hasShape_empty l cellsPerChunk cellBytes identity
  | ensureChunks _ budget chunks ih => exact ih.ensureChunks budget chunks
  | ensureOrdinals _ budget ordinals ih =>
      rw [ensureOrdinals_eq]
      exact ih.ensureChunks budget _
  | modify _ hcells ih =>
      rw [ChunkStore.eq_update_of_modify? hcells]
      exact ih.updateCells _ _ _
  | mark _ hvalidity ih =>
      obtain ⟨words, hwords, rfl⟩ := Option.map_eq_some_iff.mp hvalidity
      rw [ChunkStore.eq_update_of_modify? hwords]
      exact ih.updateWords _ _ _
  | reset _ ih => exact ih.reset

/-! ### All or nothing -/

/-- The second table is the first one with all chunks up to a number added, each of them with the
given cells and without a valid slot. -/
structure GrownTo (l : ChunkLayout) (cellsPerChunk : Nat) (identity : α) (chunks : Nat)
    (t t' : SlotTable α) : Prop where
  size_cells : t'.cells.size = chunks
  size_words : t'.validity.size = chunks
  old_cells : ∀ c < t.size, t'.cells.chunk? c = t.cells.chunk? c
  old_words : ∀ c < t.size, t'.validity.chunk? c = t.validity.chunk? c
  new_cells : ∀ c, t.size ≤ c → c < chunks →
    t'.cells.chunk? c = some (Array.replicate cellsPerChunk identity)
  new_words : ∀ c, t.size ≤ c → c < chunks →
    t'.validity.chunk? c = some (Array.replicate l.wordsPerChunk 0)

/-- An extended table has grown to the larger number of chunks. -/
theorem HasShape.grownTo_extend (h : HasShape l cellsPerChunk cellBytes identity t) {chunks : Nat}
    (hlt : t.size < chunks) :
    GrownTo l cellsPerChunk identity chunks t (t.extend (chunks - t.size)) := by
  have hsum : t.size + (chunks - t.size) = chunks := Nat.add_sub_of_le (Nat.le_of_lt hlt)
  have hcells (c : Nat) := t.cells.chunk?_extend (chunks - t.size) t.identity c
  have hwords (c : Nat) := t.validity.words.chunk?_extend (chunks - t.size) 0 c
  rw [show t.cells.size = t.size from rfl, h.length_cells, hsum] at hcells
  rw [h.wellFormed.size_words, h.words_length, hsum] at hwords
  have hsize := (t.size_extend (chunks - t.size)).trans hsum
  refine ⟨hsize, ?_, ?_, ?_, ?_, ?_⟩
  · exact ((h.wellFormed.extend _).size_words).trans hsize
  · intro c hc
    exact (hcells c).trans (if_pos hc)
  · intro c hc
    exact (hwords c).trans (if_pos hc)
  · intro c hold hnew
    rw [← h.identity_eq]
    exact (hcells c).trans (by rw [if_neg (Nat.not_lt.mpr hold), if_pos hnew])
  · intro c hold hnew
    exact (hwords c).trans (by rw [if_neg (Nat.not_lt.mpr hold), if_pos hnew])

/-- What growing a table to a number of chunks does, for a budget of which any bytes may be reserved
already: it fails if and only if it has to, and then nothing has changed; if it succeeds, everything
asked for is there and paid for. -/
structure AllOrNothing (l : ChunkLayout) (cellsPerChunk cellBytes : Nat) (identity : α)
    (t : SlotTable α) (budget : Budget) (chunks : Nat) : Prop where
  /-- The regions have as many chunks as each other. -/
  size_words : t.validity.size = t.size
  ok_iff : (t.ensureChunks budget chunks).1 = .ok () ↔ chunks ≤ t.size ∨
    budget.reserved + (chunks - t.size) * (cellsPerChunk * cellBytes + 4 * l.wordsPerChunk) ≤
        budget.ceiling ∧
      chunks * chunkEntryBytes ≤ maxAllocation ∧ cellsPerChunk * cellBytes ≤ maxAllocation ∧
      4 * l.wordsPerChunk ≤ maxAllocation
  of_error : ∀ e, (t.ensureChunks budget chunks).1 = .error e →
    (t.ensureChunks budget chunks).2 = (t, budget)
  of_le : chunks ≤ t.size → t.ensureChunks budget chunks = (.ok (), t, budget)
  of_ok : (t.ensureChunks budget chunks).1 = .ok () → t.size < chunks →
    GrownTo l cellsPerChunk identity chunks t (t.ensureChunks budget chunks).2.1 ∧
      (t.ensureChunks budget chunks).2.2 = { budget with
        reserved := budget.reserved +
          (chunks - t.size) * (cellsPerChunk * cellBytes + 4 * l.wordsPerChunk) }

/-- Growing a reachable table is all or nothing. -/
theorem Reachable.allOrNothing_ensureChunks (h : Reachable l cellsPerChunk cellBytes identity t)
    (budget : Budget) (chunks : Nat) :
    AllOrNothing l cellsPerChunk cellBytes identity t budget chunks where
  size_words := h.hasShape.wellFormed.size_words
  ok_iff := by
    rw [h.hasShape.wellFormed.ensureChunks_ok_iff, Budget.Affords, h.hasShape.chunkBytes_eq,
      h.hasShape.cells_chunkBytes, h.hasShape.words_chunkBytes]
  of_error := by
    intro e he
    rcases h.hasShape.wellFormed.ensureChunks_cases budget chunks with ⟨e', heq⟩ | heq
    · rw [heq]
    · rw [heq] at he
      exact absurd he (by simp)
  of_le := fun hle => if_pos hle
  of_ok := by
    intro hok hlt
    rcases h.hasShape.wellFormed.ensureChunks_cases budget chunks with ⟨e, heq⟩ | heq
    · rw [heq] at hok
      exact absurd hok (by simp)
    · rw [heq, ← h.hasShape.chunkBytes_eq]
      exact ⟨h.hasShape.grownTo_extend hlt, rfl⟩

/-- Two chunks of 260 bytes, and 200 bytes of others: a third chunk fits below the limit, but of two
more nothing stays, although the first one of them would have fitted. -/
theorem Reachable.allOrNothing_of_shared_budget :
    ∃ t : SlotTable Int64, Reachable ⟨5, by decide, by decide⟩ 32 8 7 t ∧ t.size = 2 ∧
      (t.ensureChunks ⟨some 1000, 720⟩ 3).1 = .ok () ∧
      ∃ e, t.ensureChunks ⟨some 1000, 720⟩ 4 = (.error e, t, ⟨some 1000, 720⟩) := by
  have ht : Reachable ⟨5, by decide, by decide⟩ 32 8 (7 : Int64) _ :=
    Reachable.empty.ensureChunks ⟨some 1000, 0⟩ 2
  have hsize : (((SlotTable.empty ⟨5, by decide, by decide⟩ 32 8 (7 : Int64)).ensureChunks
      ⟨some 1000, 0⟩ 2).2.1).size = 2 := by decide
  refine ⟨_, ht, hsize, ?_, ?_⟩
  · rw [(ht.allOrNothing_ensureChunks ⟨some 1000, 720⟩ 3).ok_iff, hsize]
    decide
  · have hgrow := ht.allOrNothing_ensureChunks ⟨some 1000, 720⟩ 4
    have hok := hgrow.ok_iff
    rw [hsize, iff_false_right (by decide)] at hok
    rcases ht.hasShape.wellFormed.ensureChunks_cases ⟨some 1000, 720⟩ 4 with ⟨e, heq⟩ | heq
    · have he := congrArg Prod.fst heq
      exact ⟨e, Prod.ext he (hgrow.of_error e he)⟩
    · exact absurd (congrArg Prod.fst heq) hok

end SlotTable

end GroupedExtrema
