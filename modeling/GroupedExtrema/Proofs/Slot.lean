import GroupedExtrema.Accumulator
import GroupedExtrema.Proofs.Kernel
import GroupedExtrema.Proofs.SlotTable

/-!
# Slots of a table

A table of a kernel is seen through `Kernel.slot?`, the value and validity of every numbered slot
that exists. Each operation does one thing to this view: growing adds fresh slots, folding a row
changes the slot of its ordinal and no other, and a reset makes every slot fresh.
-/

namespace GroupedExtrema

/-- Marking a slot sets its bit, if anything, and no other one. -/
theorem ValidityMap.isValid?_update (m : ValidityMap) (l : ChunkLayout) (n : Nat) (valid : Bool) (i : Nat) :
    ValidityMap.isValid? ⟨m.words.update (l.slot n).chunk (l.slot n).word
      (· ||| SlotWord.ofBit valid <<< (l.slot n).bit)⟩ (l.slot i) =
      (m.isValid? (l.slot i)).map (· || (decide (i = n) && valid)) := by
  simp only [ValidityMap.isValid?, ChunkStore.get?_update, Option.map_map]
  split
  case isTrue hsame =>
      have hbit : (l.slot i).bit = (l.slot n).bit ↔ i = n := by
        refine ⟨fun hbit => l.slot_injective ?_, fun h => h ▸ rfl⟩
        rw [SlotAddress.mk.injEq]
        exact ⟨hsame.1, SlotAddress.offset_eq_of_word_bit hsame.2 hbit⟩
      rw [Option.map_map]
      congr 1
      funext w
      simp [SlotWord.getLsbD_ofBit_shiftLeft _ (SlotAddress.bit_lt (l.slot i)), hbit]
  case isFalse hother =>
      have hne : i ≠ n := fun h => hother (h ▸ ⟨rfl, rfl⟩)
      congr 1
      funext w
      simp [hne]

namespace Kernel

/-- The table belongs to accumulators of the kernel for an extremum. -/
structure Fits (e : Extremum) (k : Kernel) (t : SlotTable k.Cell) : Prop where
  wellFormed : t.WellFormed
  length_cells : t.cells.chunkLength = k.cellsPerChunk t.layout
  bytes_cells : t.cells.elementBytes = k.cellBytes
  identity_eq : t.identity = k.identity e

/-- The value of a slot. -/
def valueAt? (k : Kernel) (t : SlotTable k.Cell) (a : SlotAddress) : Option k.Value :=
  (t.cells.get? a.chunk (k.cellIndex a)).map (k.readCell a.bit)

/-- Value and validity of slot number `n`. -/
def slot? (k : Kernel) (t : SlotTable k.Cell) (n : Nat) : Option (k.Value × Bool) :=
  (k.valueAt? t (t.layout.slot n)).bind fun v =>
    (t.validity.isValid? (t.layout.slot n)).map fun valid => (v, valid)

variable {e : Extremum} {k : Kernel} {t : SlotTable k.Cell}

/-- A slot is a value in its cell and a bit in its word of validity. -/
theorem slot?_eq_some_iff {n : Nat} {v : k.Value} {valid : Bool} :
    k.slot? t n = some (v, valid) ↔
      (∃ c, t.cells.get? (t.layout.slot n).chunk (k.cellIndex (t.layout.slot n)) = some c ∧
        k.readCell (t.layout.slot n).bit c = v) ∧
      ∃ w, t.validity.words.get? (t.layout.slot n).chunk (t.layout.slot n).word = some w ∧
        w.getLsbD (t.layout.slot n).bit = valid := by
  simp only [slot?, valueAt?, ValidityMap.isValid?, Option.bind_eq_some_iff, Option.map_eq_some_iff,
    Prod.mk.injEq]
  constructor
  · rintro ⟨v', hv', b, hb, rfl, rfl⟩
    exact ⟨hv', hb⟩
  · rintro ⟨hv, hb⟩
    exact ⟨v, hv, valid, hb, rfl, rfl⟩

/-- The cell of every slot lies within a chunk of the value region. -/
theorem Fits.cellIndex_lt (h : Fits e k t) (n : Nat) :
    k.cellIndex (t.layout.slot n) < t.cells.chunkLength :=
  h.length_cells ▸ k.cellIndex_lt (t.layout.slot_offset_lt n)

/-- The bit of every slot lies within a chunk of the validity region. -/
theorem Fits.word_lt (h : Fits e k t) (n : Nat) :
    (t.layout.slot n).word < t.validity.words.chunkLength :=
  h.wellFormed.length_words.symm ▸ SlotAddress.word_lt (t.layout.slot_offset_lt n)

/-! ### Growing -/

theorem fits_empty (e : Extremum) (k : Kernel) (l : ChunkLayout) :
    Fits e k (.empty l (k.cellsPerChunk l) k.cellBytes (k.identity e)) :=
  ⟨SlotTable.wellFormed_empty _ _ _ _, rfl, rfl, rfl⟩

theorem Fits.extend (h : Fits e k t) (m : Nat) : Fits e k (t.extend m) :=
  ⟨h.wellFormed.extend m, h.length_cells, h.bytes_cells, h.identity_eq⟩

/-- Growing keeps the slots there are, and new ones are fresh. -/
theorem Fits.slot?_extend (h : Fits e k t) (m n : Nat) :
    k.slot? (t.extend m) n =
      if (t.layout.slot n).chunk < t.size then k.slot? t n
      else if (t.layout.slot n).chunk < t.size + m then some (k.contents e []) else none := by
  unfold slot? valueAt? ValidityMap.isValid?
  simp only [SlotTable.extend, ChunkStore.get?_extend, h.wellFormed.size_words,
    show t.cells.size = t.size from rfl, h.cellIndex_lt n, h.word_lt n, and_true]
  by_cases hold : (t.layout.slot n).chunk < t.size
  · rw [if_pos hold, if_pos hold, if_pos hold]
  · rw [if_neg hold, if_neg hold, if_neg hold]
    by_cases hnew : (t.layout.slot n).chunk < t.size + m
    · rw [if_pos hnew, if_pos hnew, if_pos hnew, h.identity_eq, Option.map_some,
        readCell_identity e k (SlotAddress.bit_lt _), contents_nil]
      simp
    · rw [if_neg hnew, if_neg hnew, if_neg hnew, Option.map_none, Option.bind_none]

/-! ### Folding a row -/

/-- Folding a row modifies one cell and marks one slot. -/
theorem exists_of_foldRow {t' : SlotTable k.Cell} {o : UInt32} {row : k.Value × Bool}
    (h : k.foldRow e t o row = some t') :
    ∃ cells validity,
      t.cells.modify? (t.layout.slot o.toNat).chunk (k.cellIndex (t.layout.slot o.toNat))
        (fun c => k.foldCell e (t.layout.slot o.toNat).bit c row.1 row.2) = some cells ∧
      t.validity.mark? (t.layout.slot o.toNat) row.2 = some validity ∧
      t' = { t with cells := cells, validity := validity } := by
  -- Unfolded this once; everything else about folding a row follows from the two changes.
  unfold foldRow at h
  simp only [ChunkLayout.address_eq_slot] at h
  split at h
  case h_1 => exact absurd h (by simp)
  case h_2 cells hcells =>
      split at h
      case h_1 => exact absurd h (by simp)
      case h_2 validity hvalidity =>
          exact ⟨cells, validity, hcells, hvalidity, (Option.some.inj h).symm⟩

/-- Both of them are updates. -/
theorem eq_of_foldRow {t' : SlotTable k.Cell} {o : UInt32} {row : k.Value × Bool}
    (h : k.foldRow e t o row = some t') :
    t' = { t with
      cells := t.cells.update (t.layout.slot o.toNat).chunk (k.cellIndex (t.layout.slot o.toNat))
        fun c => k.foldCell e (t.layout.slot o.toNat).bit c row.1 row.2
      validity := ⟨t.validity.words.update (t.layout.slot o.toNat).chunk
        (t.layout.slot o.toNat).word
        (· ||| SlotWord.ofBit row.2 <<< (t.layout.slot o.toNat).bit)⟩ } := by
  obtain ⟨cells, validity, hcells, hvalidity, rfl⟩ := exists_of_foldRow h
  obtain ⟨words, hwords, rfl⟩ := Option.map_eq_some_iff.mp hvalidity
  rw [ChunkStore.eq_update_of_modify? hcells, ChunkStore.eq_update_of_modify? hwords]

/-- Where the slot of the ordinal exists, folding a row succeeds. -/
theorem Fits.exists_foldRow (h : Fits e k t) {o : UInt32}
    (ho : (t.layout.slot o.toNat).chunk < t.size) (row : k.Value × Bool) :
    ∃ t', k.foldRow e t o row = some t' := by
  have hcell := h.wellFormed.cells.modify?_eq ho (h.cellIndex_lt o.toNat)
    fun c => k.foldCell e (t.layout.slot o.toNat).bit c row.1 row.2
  have hword := h.wellFormed.words.modify?_eq (h.wellFormed.size_words.symm ▸ ho)
    (h.word_lt o.toNat) (· ||| SlotWord.ofBit row.2 <<< (t.layout.slot o.toNat).bit)
  unfold foldRow ValidityMap.mark?
  simp only [ChunkLayout.address_eq_slot, hcell, hword, Option.map_some]
  exact ⟨_, rfl⟩

theorem size_foldRow {t' : SlotTable k.Cell} {o : UInt32} {row : k.Value × Bool}
    (h : k.foldRow e t o row = some t') : t'.size = t.size := by
  rw [eq_of_foldRow h]
  exact t.cells.size_update _ _ _

/-- Folding rows changes what is in the chunks, but not how many there are. -/
theorem size_foldRows {t' : SlotTable k.Cell} {read : Nat → Option (k.Value × Bool)} {i : Nat}
    {ordinals : List UInt32} (h : k.foldRows e read i ordinals t = some t') : t'.size = t.size := by
  induction ordinals generalizing i t with
  | nil => rw [← Option.some.inj h]
  | cons o os ih =>
      unfold foldRows at h
      split at h
      case h_1 => exact absurd h (by simp)
      case h_2 row _ =>
          split at h
          case h_1 => exact absurd h (by simp)
          case h_2 t'' hrow => exact (ih h).trans (size_foldRow hrow)

theorem layout_foldRow {t' : SlotTable k.Cell} {o : UInt32} {row : k.Value × Bool}
    (h : k.foldRow e t o row = some t') : t'.layout = t.layout := by
  rw [eq_of_foldRow h]

theorem Fits.foldRow (hfits : Fits e k t) {t' : SlotTable k.Cell} {o : UInt32}
    {row : k.Value × Bool} (h : k.foldRow e t o row = some t') : Fits e k t' := by
  rw [eq_of_foldRow h]
  have hcells := hfits.wellFormed.updateCells (t.layout.slot o.toNat).chunk
    (k.cellIndex (t.layout.slot o.toNat))
    fun c => k.foldCell e (t.layout.slot o.toNat).bit c row.1 row.2
  exact ⟨hcells.updateWords _ _ _, hfits.length_cells, hfits.bytes_cells, hfits.identity_eq⟩

/-- The slot of the ordinal takes the row in. -/
theorem slot?_foldRow_self {t' : SlotTable k.Cell} {o : UInt32} {row : k.Value × Bool}
    (h : k.foldRow e t o row = some t') :
    k.slot? t' o.toNat = (k.slot? t o.toNat).map fun s => k.absorbRow e s row := by
  rw [eq_of_foldRow h]
  unfold slot? valueAt? ValidityMap.isValid?
  simp only [ChunkStore.get?_update, and_self, if_true]
  cases t.cells.get? (t.layout.slot o.toNat).chunk (k.cellIndex (t.layout.slot o.toNat)) with
  | none => rfl
  | some c =>
      cases t.validity.words.get? (t.layout.slot o.toNat).chunk (t.layout.slot o.toNat).word with
      | none => rfl
      | some w =>
          have hbit := SlotAddress.bit_lt (t.layout.slot o.toNat)
          simp only [Option.map_some, Option.bind_some, BitVec.getLsbD_or,
            readCell_foldCell_self e k hbit, SlotWord.getLsbD_ofBit_shiftLeft _ hbit, absorbRow,
            absorb]
          cases row.2 <;> simp

/-- Folding a row keeps the values of all other slots, also within its own cell. -/
theorem valueAt?_foldRow_other {t' : SlotTable k.Cell} {o : UInt32} {row : k.Value × Bool}
    (h : k.foldRow e t o row = some t') {n : Nat} (hn : n ≠ o.toNat) :
    k.valueAt? t' (t.layout.slot n) = k.valueAt? t (t.layout.slot n) := by
  rw [eq_of_foldRow h]
  unfold valueAt?
  simp only [ChunkStore.get?_update]
  split
  case isTrue hsame =>
      rw [Option.map_map]
      congr 1
      funext c
      exact readCell_foldCell_other e k hsame.2.symm (t.layout.slot_offset_ne hn hsame.1) c row.1
        row.2
  case isFalse => rfl

/-- Folding a row keeps the validity of all other slots, also within its own word. -/
theorem isValid?_foldRow_other {t' : SlotTable k.Cell} {o : UInt32} {row : k.Value × Bool}
    (h : k.foldRow e t o row = some t') {n : Nat} (hn : n ≠ o.toNat) :
    t'.validity.isValid? (t.layout.slot n) = t.validity.isValid? (t.layout.slot n) := by
  rw [eq_of_foldRow h]
  refine (t.validity.isValid?_update t.layout o.toNat row.2 n).trans ?_
  simp [hn]

/-- No other slot changes, not even one that shares a cell or a word with it. -/
theorem slot?_foldRow_other {t' : SlotTable k.Cell} {o : UInt32} {row : k.Value × Bool}
    (h : k.foldRow e t o row = some t') {n : Nat} (hn : n ≠ o.toNat) :
    k.slot? t' n = k.slot? t n := by
  rw [slot?, slot?, layout_foldRow h, valueAt?_foldRow_other h hn, isValid?_foldRow_other h hn]

/-- A null row changes nothing at all, whatever value is stored under it. -/
theorem eq_of_foldRow_null {t' : SlotTable k.Cell} {o : UInt32} {v : k.Value}
    (h : k.foldRow e t o (v, false) = some t') : t' = t := by
  have hcell : (fun c => k.foldCell e (t.layout.slot o.toNat).bit c v false) = id :=
    funext fun c => foldCell_null e k (SlotAddress.bit_lt _) c v
  have hword : (fun w : SlotWord => w ||| SlotWord.ofBit false <<< (t.layout.slot o.toNat).bit) =
      id := by
    funext w
    simp [SlotWord.ofBit]
  rw [eq_of_foldRow h, hcell, hword, ChunkStore.update_id, ChunkStore.update_id]

/-! ### Forgetting -/

theorem Fits.reset (h : Fits e k t) : Fits e k t.reset :=
  ⟨h.wellFormed.reset, h.length_cells, h.bytes_cells, h.identity_eq⟩

/-- A reset makes every slot fresh. -/
theorem Fits.slot?_reset (h : Fits e k t) (n : Nat) :
    k.slot? t.reset n = (k.slot? t n).map fun _ => k.contents e [] := by
  unfold slot? valueAt? ValidityMap.isValid?
  simp only [SlotTable.reset, ValidityMap.clear, ChunkStore.get?_fill, h.identity_eq]
  cases t.cells.get? (t.layout.slot n).chunk (k.cellIndex (t.layout.slot n)) with
  | none => rfl
  | some c =>
      cases t.validity.words.get? (t.layout.slot n).chunk (t.layout.slot n).word with
      | none => rfl
      | some w => simp [readCell_identity e k (SlotAddress.bit_lt _)]

end Kernel

end GroupedExtrema
