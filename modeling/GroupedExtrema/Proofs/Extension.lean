import GroupedExtrema.Proofs.Room

/-!
# Working beside new chunks

New chunks at the end of a table are in nobody's way: changing an element of an old chunk, folding
rows into old slots and overwriting everything can be done before they are added or after, and it
comes to the same table. Reading an old slot finds the same, too.

For folding this says more than that the slots agree. A row that can be folded is folded into the
same elements, and a row that cannot be folded stops both tables at the same place.
-/

namespace GroupedExtrema

/-! ### Stores -/

namespace ChunkStore

variable {α : Type} {s : ChunkStore α}

/-- An old element can be changed before chunks are added or after. -/
theorem update_extend {chunk : Nat} (h : chunk < s.size) (n : Nat) (fill : α) (offset : Nat)
    (f : α → α) :
    (s.extend n fill).update chunk offset f = (s.update chunk offset f).extend n fill := by
  have hchunks (c : Nat) : ((s.extend n fill).update chunk offset f).chunks[c]? =
      ((s.update chunk offset f).extend n fill).chunks[c]? := by
    have hsize : (s.update chunk offset f).chunks.size = s.chunks.size := s.size_update _ _ _
    simp only [update, extend, Array.getElem?_modify, Array.getElem?_append, Array.size_modify]
    by_cases hc : c < s.chunks.size
    · rw [if_pos hc, if_pos hc]
    · -- A new chunk is not the one that is changed.
      have hne : chunk ≠ c := by
        rintro rfl
        exact hc h
      rw [if_neg hc, if_neg hc, if_neg hne]
  exact congrArg (fun chunks => { s.extend n fill with chunks := chunks })
    (Array.ext_getElem? hchunks)

theorem fill_extend (s : ChunkStore α) (n : Nat) (value : α) :
    (s.extend n value).fill value = (s.fill value).extend n value := by
  simp [extend, fill, chunkBytes]

theorem get?_extend_of_lt {chunk : Nat} (h : chunk < s.size) (n : Nat) (fill : α) (offset : Nat) :
    (s.extend n fill).get? chunk offset = s.get? chunk offset := by
  rw [get?_extend, if_pos h]

end ChunkStore

/-! ### Tables -/

namespace SlotTable

variable {α : Type} {t : SlotTable α}

theorem lt_size_extend {chunk : Nat} (h : chunk < t.size) (n : Nat) :
    chunk < (t.extend n).size := by
  rw [size_extend]
  exact Nat.lt_add_right n h

theorem reset_extend (t : SlotTable α) (n : Nat) : (t.extend n).reset = t.reset.extend n := by
  have hwords : (t.validity.words.extend n 0).fill 0 = (t.validity.words.fill 0).extend n 0 :=
    t.validity.words.fill_extend n 0
  rw [extend, reset, t.cells.fill_extend, ValidityMap.clear, hwords]
  rfl

theorem checkAllocated_extend {o : UInt32} (h : (t.layout.address o).chunk < t.size) (n : Nat) :
    (t.extend n).checkAllocated o = t.checkAllocated o :=
  (if_pos (lt_size_extend h n)).trans (if_pos h).symm

theorem WellFormed.isValid?_extend (h : t.WellFormed) {o : UInt32}
    (ho : (t.layout.address o).chunk < t.size) (n : Nat) :
    (t.extend n).isValid? o = t.isValid? o := by
  have hword : (t.layout.address o).chunk < t.validity.words.size := h.size_words.symm ▸ ho
  have hbit : (t.extend n).validity.isValid? (t.layout.address o) =
      t.validity.isValid? (t.layout.address o) :=
    congrArg (Option.map _) (ChunkStore.get?_extend_of_lt hword n 0 _)
  exact (if_pos (lt_size_extend ho n)).trans (hbit.trans (if_pos ho).symm)

end SlotTable

namespace Kernel

variable {e : Extremum} {k : Kernel} {t : SlotTable k.Cell}

/-- Folding a row into an old slot of a larger table. -/
theorem Fits.foldRow_extend (h : Fits e k t) {o : UInt32} {row : k.Value × Bool}
    {t' : SlotTable k.Cell} (ho : (t.layout.slot o.toNat).chunk < t.size)
    (hrow : k.foldRow e t o row = some t') (n : Nat) :
    k.foldRow e (t.extend n) o row = some (t'.extend n) := by
  have hword : (t.layout.slot o.toNat).chunk < t.validity.words.size :=
    h.wellFormed.size_words.symm ▸ ho
  obtain ⟨t'', ht''⟩ := (h.extend n).exists_foldRow (SlotTable.lt_size_extend ho n) row
  rw [ht'', eq_of_foldRow ht'', eq_of_foldRow hrow]
  have hcells := ChunkStore.update_extend (s := t.cells) ho n t.identity
    (k.cellIndex (t.layout.slot o.toNat))
    fun c => k.foldCell e (t.layout.slot o.toNat).bit c row.1 row.2
  have hwords := ChunkStore.update_extend hword n 0 (t.layout.slot o.toNat).word
    (· ||| SlotWord.ofBit row.2 <<< (t.layout.slot o.toNat).bit)
  simp only [SlotTable.extend, hcells, hwords]

/-- Rows are folded into the old slots of a larger table as into those of the table itself. -/
theorem Fits.foldRows_extend (h : Fits e k t) {read : Nat → Option (k.Value × Bool)} {i : Nat}
    {ordinals : List UInt32} (hslots : ∀ o ∈ ordinals, (t.layout.slot o.toNat).chunk < t.size)
    (n : Nat) :
    k.foldRows e read i ordinals (t.extend n) =
      (k.foldRows e read i ordinals t).map (·.extend n) := by
  induction ordinals generalizing i t with
  | nil => rfl
  | cons o os ih =>
      have ho := hslots o List.mem_cons_self
      cases hread : read i with
      | none => simp only [Kernel.foldRows, hread, Option.map_none]
      | some row =>
          obtain ⟨t', ht'⟩ := h.exists_foldRow ho row
          simp only [Kernel.foldRows, hread, ht', h.foldRow_extend ho ht' n]
          apply ih (h.foldRow ht')
          intro o' ho'
          rw [layout_foldRow ht', size_foldRow ht']
          exact hslots o' (List.mem_cons_of_mem o ho')

end Kernel

/-! ### Accumulators -/

namespace Accumulator

variable {k : Kernel} {a : Accumulator k} {l : ChunkLayout}

theorem reset_extend (a : Accumulator k) (n : Nat) : (a.extend n).reset = a.reset.extend n :=
  congrArg (fun slots => { a with slots := slots }) (a.slots.reset_extend n)

theorem Fits.foldColumn_extend (h : a.Fits) {ordinals : List UInt32}
    (hslots : ∀ o ∈ ordinals, (a.layout.slot o.toNat).chunk < a.size) (input : Column) (n : Nat) :
    (a.extend n).foldColumn input ordinals =
      ((a.foldColumn input ordinals).1, (a.foldColumn input ordinals).2.extend n) := by
  cases hread : k.reader? input with
  | none =>
      cases input with
      | null rows => rfl
      | _ =>
          simp only [foldColumn, hread]
          rfl
  | some read =>
      have hrows : k.foldRows a.extremum read 0 ordinals (a.slots.extend n) =
          (k.foldRows a.extremum read 0 ordinals a.slots).map (·.extend n) :=
        Kernel.Fits.foldRows_extend h hslots n
      rw [foldColumn_of_reader? hread, foldColumn_of_reader? hread,
        show (a.extend n).extremum = a.extremum from rfl,
        show (a.extend n).slots = a.slots.extend n from rfl, hrows]
      cases k.foldRows a.extremum read 0 ordinals a.slots <;> rfl

/-- A call that needs no more chunks than there are does the same beside further ones. -/
theorem UsesLayout.perform_extend (h : a.UsesLayout l) {c : Call} (hchunks : c.chunks l ≤ a.size)
    (n : Nat) : (a.extend n).perform c = ((a.perform c).1, (a.perform c).2.extend n) := by
  cases c with
  | accumulate input ordinals =>
      have hslots := (l.chunksForOrdinals_le_iff ordinals a.size).mp hchunks
      rw [← h.layout_eq] at hslots
      exact h.fits.foldColumn_extend hslots input n
  | resize chunks => rfl
  | reset => exact congrArg (Prod.mk _) (a.reset_extend n)

/-! ### Reading -/

/-- The second accumulator reads like the first one wherever that one has slots, in the scalars and
in the stored chunks. -/
structure ReadsLike (l : ChunkLayout) (a a' : Accumulator k) : Prop where
  scalar_eq : ∀ o, (l.address o).chunk < a.size → a'.scalar o = a.scalar o
  isValid?_eq : ∀ o, (l.address o).chunk < a.size → a'.isValid? o = a.isValid? o
  values : ∀ c < a.size, a'.valueChunk? c = a.valueChunk? c
  words : ∀ c < a.size, a'.validityChunk? c = a.validityChunk? c

/-- Further chunks do not show. -/
theorem UsesLayout.readsLike_extend (h : a.UsesLayout l) (n : Nat) :
    a.ReadsLike l (a.extend n) where
  scalar_eq := by
    intro o ho
    rw [← h.layout_eq] at ho
    have hallocated : (a.extend n).slots.checkAllocated o = a.slots.checkAllocated o :=
      SlotTable.checkAllocated_extend ho n
    have hvalid : (a.extend n).isValid? o = a.isValid? o := h.wellFormed.isValid?_extend ho n
    have hcell : (a.extend n).slots.cells.get? (a.layout.address o).chunk
        (k.cellIndex (a.layout.address o)) =
          a.slots.cells.get? (a.layout.address o).chunk (k.cellIndex (a.layout.address o)) :=
      ChunkStore.get?_extend_of_lt ho n a.slots.identity _
    simp only [scalar, hallocated, hvalid, show (a.extend n).layout = a.layout from rfl, hcell]
  isValid?_eq := by
    intro o ho
    rw [← h.layout_eq] at ho
    exact h.wellFormed.isValid?_extend ho n
  values := by
    intro c hc
    exact (ChunkStore.chunk?_extend _ _ _ c).trans (if_pos hc)
  words := by
    intro c hc
    rw [show a.size = a.slots.size from rfl, ← h.wellFormed.size_words] at hc
    exact (ChunkStore.chunk?_extend _ _ _ c).trans (if_pos hc)

end Accumulator

end GroupedExtrema
