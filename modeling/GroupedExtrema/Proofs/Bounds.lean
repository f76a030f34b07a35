import GroupedExtrema.Proofs.Outcome

/-!
# Staying in bounds

Folding rows indexes the chunks of both regions, the values of a column and the bytes of its bitmap,
and it shifts words by places that have been computed. An `Access` is one such use of a number that
has to be below another, and for each operation there is the list of those that it makes. Shifts by
a fixed number of bits are left out.

An operation comes to an end without a result exactly if one of its accesses is not in bounds, so
what has to be shown is that operations have results. They do because of the shape of tables, which
every call keeps, whether it succeeds or fails: both regions have as many chunks as each other, and
all chunks have the length that the layout gives them.
-/

namespace GroupedExtrema

/-! ### Accesses -/

/-- The use of a number that has to be below another one. -/
inductive Access where
  /-- Indexing so many elements. -/
  | index (i size : Nat)
  /-- Shifting a word of so many bits. -/
  | shift (amount width : Nat)

namespace Access

def InBounds : Access → Prop
  | index i size => i < size
  | shift amount width => amount < width

/-- All accesses are in bounds. -/
def AllInBounds (xs : List Access) : Prop := ∀ x ∈ xs, x.InBounds

@[simp] theorem allInBounds_nil : AllInBounds [] := fun _ h => absurd h List.not_mem_nil

@[simp] theorem allInBounds_cons {x : Access} {xs : List Access} :
    AllInBounds (x :: xs) ↔ x.InBounds ∧ AllInBounds xs := List.forall_mem_cons

@[simp] theorem allInBounds_append {xs ys : List Access} :
    AllInBounds (xs ++ ys) ↔ AllInBounds xs ∧ AllInBounds ys := List.forall_mem_append

end Access

open Access

/-- A layout has fewer bits than an ordinal, so finding an address shifts within bounds. -/
@[simp] theorem ChunkLayout.allInBounds_shift_cons {l : ChunkLayout} {xs : List Access} :
    AllInBounds (.shift l.bits 32 :: xs) ↔ AllInBounds xs := by
  rw [allInBounds_cons]
  exact and_iff_right (Nat.lt_of_le_of_lt l.bits_le (by decide))

/-! ### Accesses to chunks -/

namespace ChunkStore

variable {α : Type} (s : ChunkStore α) (chunk offset : Nat)

/-- The accesses to an element: the chunk is indexed only if it exists. -/
def accesses : List Access :=
  .index chunk s.chunks.size ::
    match s.chunks[chunk]? with
    | some elements => [.index offset elements.size]
    | none => []

theorem isSome_get?_iff : (s.get? chunk offset).isSome ↔ AllInBounds (s.accesses chunk offset) := by
  unfold get? accesses
  by_cases hchunk : chunk < s.chunks.size
  · simp [hchunk, InBounds]
  · simp [hchunk, InBounds]

theorem isSome_modify?_iff (f : α → α) :
    (s.modify? chunk offset f).isSome ↔ AllInBounds (s.accesses chunk offset) := by
  rw [← isSome_get?_iff, modify?, inRange]
  split
  case isTrue h => exact iff_of_true rfl h
  case isFalse h => exact iff_of_false (by simp) h

end ChunkStore

/-- The accesses to a slot's bit. -/
def ValidityMap.accesses (m : ValidityMap) (a : SlotAddress) : List Access :=
  m.words.accesses a.chunk a.word ++ [.shift a.bit 32]

theorem ValidityMap.allInBounds_accesses {m : ValidityMap} {a : SlotAddress} :
    AllInBounds (m.accesses a) ↔ AllInBounds (m.words.accesses a.chunk a.word) := by
  simp [accesses, InBounds, a.bit_lt]

theorem ValidityMap.isSome_mark?_iff (m : ValidityMap) (a : SlotAddress) (valid : Bool) :
    (m.mark? a valid).isSome ↔ AllInBounds (m.accesses a) := by
  rw [mark?, Option.isSome_map, ChunkStore.isSome_modify?_iff, allInBounds_accesses]

theorem ValidityMap.isSome_isValid?_iff (m : ValidityMap) (a : SlotAddress) :
    (m.isValid? a).isSome ↔ AllInBounds (m.accesses a) := by
  rw [isValid?, Option.isSome_map, ChunkStore.isSome_get?_iff, allInBounds_accesses]

/-! ### Accesses to rows -/

/-- The accesses to a row: its value, and the byte and the place of its bit. -/
def Rows.accesses {α : Type} (r : Rows α) (i : Nat) : List Access :=
  .index i r.values.size ::
    match r.validity with
    | some b => [.index (i >>> 3) b.bytes.size, .shift (i &&& 7) 8]
    | none => []

theorem Rows.isSome_read?_iff {α : Type} (r : Rows α) (i : Nat) :
    (r.read? i).isSome ↔ AllInBounds (r.accesses i) := by
  have hbit : i &&& 7 < 8 := Nat.lt_of_le_of_lt Nat.and_le_right (by decide)
  unfold read? accesses
  by_cases hvalue : i < r.values.size
  · cases r.validity with
    | none => simp [hvalue, InBounds]
    | some b => simp [hvalue, InBounds, hbit, Bitmap.rawBit?]
  · simp [hvalue, InBounds]

/-- The accesses to a bit through its 64-bit word: the bytes of the word, as far as there are any,
and the place of the bit. -/
def Bitmap.wordAccesses (b : Bitmap) (i : Nat) : List Access :=
  (List.range' (8 * (i / 64)) (min 8 (b.bytes.size - 8 * (i / 64)))).map (.index · b.bytes.size) ++
    [.shift (i % 64) 64]

/-- They are in bounds for every bitmap and every index. -/
theorem Bitmap.allInBounds_wordAccesses (b : Bitmap) (i : Nat) :
    AllInBounds (b.wordAccesses i) := by
  rw [wordAccesses, allInBounds_append]
  constructor
  · intro x hx
    obtain ⟨j, hj, rfl⟩ := List.mem_map.mp hx
    rw [List.mem_range'_1] at hj
    show j < b.bytes.size
    omega
  · rw [allInBounds_cons]
    exact ⟨Nat.mod_lt i (by decide), allInBounds_nil⟩

/-- The accesses to a row of truth values. Where there is no bitmap of validity, the bit is taken
from a word of ones. -/
def BooleanRows.accesses (r : BooleanRows) (i : Nat) : List Access :=
  r.values.wordAccesses i ++
    match r.validity with
    | some b => b.wordAccesses i
    | none => [.shift (i % 64) 64]

theorem BooleanRows.allInBounds_accesses (r : BooleanRows) (i : Nat) :
    AllInBounds (r.accesses i) := by
  rw [accesses, allInBounds_append]
  refine ⟨r.values.allInBounds_wordAccesses i, ?_⟩
  cases r.validity with
  | none => exact allInBounds_cons.mpr ⟨Nat.mod_lt i (by decide), allInBounds_nil⟩
  | some b => exact b.allInBounds_wordAccesses i

namespace Kernel

/-- The accesses to a row of a column of the kernel's type. -/
def rowAccesses : Kernel → Column → Nat → List Access
  | int32, .int32 r, i => r.accesses i
  | int64, .int64 r, i => r.accesses i
  | float32, .float32 r, i => r.accesses i
  | float64, .float64 r, i => r.accesses i
  | decimal128, .decimal128 _ r, i => r.accesses i
  | boolean, .boolean r, i => r.accesses i
  | intervalDayTime, .interval r, i => r.accesses i
  | _, _, _ => []

variable {e : Extremum} {k : Kernel} {t : SlotTable k.Cell}

theorem isSome_read_iff {c : Column} {read : Nat → Option (k.Value × Bool)}
    (h : k.reader? c = some read) (i : Nat) :
    (read i).isSome ↔ AllInBounds (k.rowAccesses c i) := by
  unfold reader? at h
  split at h
  case h_1 r => exact Option.some.inj h ▸ r.isSome_read?_iff i
  case h_2 r => exact Option.some.inj h ▸ r.isSome_read?_iff i
  case h_3 r => exact Option.some.inj h ▸ r.isSome_read?_iff i
  case h_4 r => exact Option.some.inj h ▸ r.isSome_read?_iff i
  case h_5 t r =>
      rw [← Option.some.inj h, Option.isSome_map]
      exact r.isSome_read?_iff i
  case h_6 r => exact iff_of_true (by rw [← Option.some.inj h]; rfl) (r.allInBounds_accesses i)
  case h_7 r =>
      rw [← Option.some.inj h, Option.isSome_map]
      exact r.isSome_read?_iff i
  case h_8 => exact absurd h (by simp)

/-! ### Accesses to slots -/

/-- The accesses to the cell of a slot, and to its bit if slots are single bits. -/
def cellAccesses (k : Kernel) (t : SlotTable k.Cell) (a : SlotAddress) : List Access :=
  t.cells.accesses a.chunk (k.cellIndex a) ++ if k = boolean then [.shift a.bit 32] else []

theorem allInBounds_cellAccesses {a : SlotAddress} :
    AllInBounds (k.cellAccesses t a) ↔ AllInBounds (t.cells.accesses a.chunk (k.cellIndex a)) := by
  unfold cellAccesses
  split <;> simp [InBounds, a.bit_lt]

/-- The accesses to the slot of an ordinal, the first one to find its address. -/
def slotAccesses (k : Kernel) (t : SlotTable k.Cell) (o : UInt32) : List Access :=
  .shift t.layout.bits 32 ::
    (k.cellAccesses t (t.layout.address o) ++ t.validity.accesses (t.layout.address o))

theorem isSome_foldRow_iff (t : SlotTable k.Cell) (o : UInt32) (row : k.Value × Bool) :
    (k.foldRow e t o row).isSome ↔ AllInBounds (k.slotAccesses t o) := by
  have hcell := t.cells.isSome_modify?_iff (t.layout.address o).chunk
    (k.cellIndex (t.layout.address o)) fun c => k.foldCell e (t.layout.address o).bit c row.1 row.2
  have hword := t.validity.isSome_mark?_iff (t.layout.address o) row.2
  rw [slotAccesses, ChunkLayout.allInBounds_shift_cons, allInBounds_append,
    allInBounds_cellAccesses, ← hcell, ← hword, foldRow]
  cases t.cells.modify? (t.layout.address o).chunk (k.cellIndex (t.layout.address o))
      fun c => k.foldCell e (t.layout.address o).bit c row.1 row.2 with
  | none => simp
  | some cells => cases t.validity.mark? (t.layout.address o) row.2 <;> simp

/-- The accesses of folding rows, the first ordinal taking row `i`. -/
def foldAccesses (k : Kernel) (e : Extremum) (c : Column) (read : Nat → Option (k.Value × Bool)) :
    Nat → List UInt32 → SlotTable k.Cell → List Access
  | _, [], _ => []
  | i, o :: os, t =>
    k.rowAccesses c i ++
      match read i with
      | none => []
      | some row =>
        k.slotAccesses t o ++
          match k.foldRow e t o row with
          | none => []
          | some t => foldAccesses k e c read (i + 1) os t

theorem isSome_foldRows_iff {c : Column} {read : Nat → Option (k.Value × Bool)}
    (h : k.reader? c = some read) (i : Nat) (ordinals : List UInt32) (t : SlotTable k.Cell) :
    (k.foldRows e read i ordinals t).isSome ↔
      AllInBounds (k.foldAccesses e c read i ordinals t) := by
  induction ordinals generalizing i t with
  | nil => simp [foldRows, foldAccesses]
  | cons o os ih =>
      rw [foldAccesses, allInBounds_append, ← isSome_read_iff h, foldRows]
      cases read i with
      | none => simp
      | some row =>
          dsimp only
          rw [allInBounds_append, ← isSome_foldRow_iff (e := e) t o row]
          cases k.foldRow e t o row with
          | none => simp
          | some t' => simp [ih]

end Kernel

/-! ### Accesses of accumulators -/

namespace Accumulator

variable {k : Kernel} {a : Accumulator k} {l : ChunkLayout}

/-- The accesses of folding a column once the slots of the ordinals exist. -/
def foldColumnAccesses (a : Accumulator k) (input : Column) (ordinals : List UInt32) :
    List Access :=
  match k.reader? input with
  | none => []
  | some read => k.foldAccesses a.extremum input read 0 ordinals a.slots

/-- The accesses of `accumulate`, the first one to find the chunk of the largest ordinal. -/
def accumulateAccesses (a : Accumulator k) (budget : Budget) (input : Column)
    (ordinals : List UInt32) : List Access :=
  if input.length < ordinals.length then []
  else
    .shift a.layout.bits 32 ::
      match a.slots.ensureOrdinals budget ordinals with
      | (.error _, _, _) => []
      | (.ok (), slots, _) => foldColumnAccesses { a with slots := slots } input ordinals

/-- The accesses of `isValid?`. -/
def isValidAccesses (a : Accumulator k) (o : UInt32) : List Access :=
  .shift a.layout.bits 32 ::
    if (a.layout.address o).chunk < a.size then a.slots.validity.accesses (a.layout.address o)
    else []

/-- The accesses of `scalar`, which finds the address for each of its parts anew. -/
def scalarAccesses (a : Accumulator k) (o : UInt32) : List Access :=
  .shift a.layout.bits 32 ::
    if (a.layout.address o).chunk < a.size then
      a.isValidAccesses o ++
        if a.isValid? o = some true then
          .shift a.layout.bits 32 :: k.cellAccesses a.slots (a.layout.address o)
        else []
    else []

theorem foldColumn_ne_outOfBounds_iff (a : Accumulator k) (input : Column)
    (ordinals : List UInt32) :
    (a.foldColumn input ordinals).1 ≠ .error .outOfBounds ↔
      AllInBounds (a.foldColumnAccesses input ordinals) := by
  unfold foldColumnAccesses
  cases hread : k.reader? input with
  | none => cases input <;> simp [foldColumn, hread]
  | some read =>
      rw [foldColumn_of_reader? hread]
      dsimp only
      rw [← Kernel.isSome_foldRows_iff hread]
      cases k.foldRows a.extremum read 0 ordinals a.slots <;> simp

/-- Accumulating goes out of bounds exactly if one of its accesses does. -/
theorem accumulate_ne_outOfBounds_iff (a : Accumulator k) (budget : Budget) (input : Column)
    (ordinals : List UInt32) :
    (a.accumulate budget input ordinals).1 ≠ .error .outOfBounds ↔
      AllInBounds (a.accumulateAccesses budget input ordinals) := by
  rw [accumulate_eq, accumulateAccesses]
  by_cases hshort : input.length < ordinals.length
  · rw [if_pos hshort, if_pos hshort]
    exact iff_of_true (by simp) allInBounds_nil
  · rw [if_neg hshort, if_neg hshort, ChunkLayout.allInBounds_shift_cons]
    rcases hgrow : a.slots.ensureOrdinals budget ordinals with ⟨⟨err⟩ | ⟨⟨⟩⟩, slots, budget'⟩
    · -- Growing runs out of memory, but not out of bounds.
      rw [SlotTable.ensureOrdinals_eq] at hgrow
      have hexhausted := SlotTable.isExhaustion_of_ensureChunks (congrArg Prod.fst hgrow)
      refine iff_of_true (fun h => ?_) allInBounds_nil
      rw [Except.error.inj h] at hexhausted
      exact hexhausted
    · exact foldColumn_ne_outOfBounds_iff _ input ordinals

theorem isSome_isValid?_iff (a : Accumulator k) (o : UInt32) :
    (a.isValid? o).isSome ↔ AllInBounds (a.isValidAccesses o) := by
  rw [isValidAccesses, ChunkLayout.allInBounds_shift_cons, isValid?, SlotTable.isValid?]
  by_cases hchunk : (a.layout.address o).chunk < a.size
  · have hchunk' : (a.slots.layout.address o).chunk < a.slots.size := hchunk
    rw [if_pos hchunk, if_pos hchunk']
    exact a.slots.validity.isSome_isValid?_iff _
  · have hchunk' : ¬ (a.slots.layout.address o).chunk < a.slots.size := hchunk
    rw [if_neg hchunk, if_neg hchunk']
    exact iff_of_true rfl allInBounds_nil

/-- Reading a scalar goes out of bounds exactly if one of its accesses does. -/
theorem scalar_ne_outOfBounds_iff (a : Accumulator k) (o : UInt32) :
    a.scalar o ≠ .error .outOfBounds ↔ AllInBounds (a.scalarAccesses o) := by
  rw [scalarAccesses, ChunkLayout.allInBounds_shift_cons, scalar, SlotTable.checkAllocated]
  by_cases hchunk : (a.layout.address o).chunk < a.size
  · have hchunk' : (a.slots.layout.address o).chunk < a.slots.size := hchunk
    rw [if_pos hchunk, allInBounds_append, ← isSome_isValid?_iff]
    simp only [if_pos hchunk']
    cases hvalid : a.isValid? o with
    | none => simp
    | some valid =>
        cases valid with
        | false => simp
        | true =>
            rw [if_pos rfl, ChunkLayout.allInBounds_shift_cons, Kernel.allInBounds_cellAccesses,
              ← ChunkStore.isSome_get?_iff]
            cases a.slots.cells.get? (a.layout.address o).chunk
              (k.cellIndex (a.layout.address o)) <;> simp
  · have hchunk' : ¬ (a.slots.layout.address o).chunk < a.slots.size := hchunk
    rw [if_neg hchunk]
    simp only [if_neg hchunk']
    exact iff_of_true (by simp) allInBounds_nil

/-! ### Results -/

/-- Accumulating a well-formed column has a result. -/
theorem Fits.accumulate_ne_outOfBounds (h : a.Fits) {input : Column} (hinput : input.WellFormed)
    (budget : Budget) (ordinals : List UInt32) :
    (a.accumulate budget input ordinals).1 ≠ .error .outOfBounds := by
  intro herr
  have hc : (Call.accumulate input ordinals).WellFormed := hinput
  have herr : (a.step budget (.accumulate input ordinals)).1 = .error .outOfBounds := herr
  rcases h.error_step hc herr with ⟨hrefused | hexhausted, -⟩ | ⟨_, _, -, hwrong, -⟩
  · rw [Call.refusal?] at hrefused
    split at hrefused
    · exact absurd hrefused (by simp)
    · exact absurd hrefused (by simp)
  · exact hexhausted
  · exact absurd hwrong (by simp)

/-- The slot of an ordinal has a cell and a bit if its chunk exists. -/
theorem Fits.isSome_get? (h : a.Fits) {o : UInt32} (ho : (a.layout.address o).chunk < a.size) :
    (a.slots.cells.get? (a.layout.address o).chunk (k.cellIndex (a.layout.address o))).isSome ∧
      (a.slots.validity.words.get? (a.layout.address o).chunk
        (a.layout.address o).word).isSome := by
  rw [ChunkLayout.address_eq_slot] at ho ⊢
  rw [h.wellFormed.cells.isSome_get?_iff, h.wellFormed.words.isSome_get?_iff]
  exact ⟨⟨ho, h.cellIndex_lt o.toNat⟩, h.wellFormed.size_words.symm ▸ ho, h.word_lt o.toNat⟩

theorem Fits.isSome_isValid? (h : a.Fits) (o : UInt32) : (a.isValid? o).isSome := by
  rw [isSome_isValid?_iff, isValidAccesses, ChunkLayout.allInBounds_shift_cons]
  split
  case isTrue ho =>
      rw [ValidityMap.allInBounds_accesses, ← ChunkStore.isSome_get?_iff]
      exact (h.isSome_get? ho).2
  case isFalse => exact allInBounds_nil

theorem Fits.scalar_ne_outOfBounds (h : a.Fits) (o : UInt32) :
    a.scalar o ≠ .error .outOfBounds := by
  rw [scalar_ne_outOfBounds_iff, scalarAccesses, ChunkLayout.allInBounds_shift_cons]
  split
  case isTrue ho =>
      rw [allInBounds_append, ← isSome_isValid?_iff]
      refine ⟨h.isSome_isValid? o, ?_⟩
      split
      case isTrue =>
          rw [ChunkLayout.allInBounds_shift_cons, Kernel.allInBounds_cellAccesses,
            ← ChunkStore.isSome_get?_iff]
          exact (h.isSome_get? ho).1
      case isFalse => exact allInBounds_nil
  case isFalse => exact allInBounds_nil

/-- Both regions of the accumulator are in step, and nothing that is done with it goes out of
bounds. -/
structure StaysInBounds (l : ChunkLayout) (a : Accumulator k) : Prop where
  size_validity : a.slots.validity.size = a.size
  /-- Chunks of values have an element for every slot, or for truth values a word for every 32. -/
  size_values : ∀ chunk cells, a.valueChunk? chunk = some cells →
    cells.size = if k = .boolean then l.wordsPerChunk else l.capacity
  size_words : ∀ chunk words, a.validityChunk? chunk = some words → words.size = l.wordsPerChunk
  /-- Each region holds one reservation for each of its chunks. -/
  reservations_values : a.slots.cells.reservations.size = a.slots.cells.chunks.size
  reservations_words :
    a.slots.validity.words.reservations.size = a.slots.validity.words.chunks.size
  accumulate : ∀ budget input ordinals, input.WellFormed →
    AllInBounds (a.accumulateAccesses budget input ordinals) ∧
      (a.accumulate budget input ordinals).1 ≠ .error .outOfBounds
  scalar : ∀ o, AllInBounds (a.scalarAccesses o) ∧ a.scalar o ≠ .error .outOfBounds
  isValid : ∀ o, AllInBounds (a.isValidAccesses o) ∧ a.isValid? o ≠ none

theorem UsesLayout.toStaysInBounds (h : a.UsesLayout l) : a.StaysInBounds l where
  size_validity := h.wellFormed.size_words
  size_values := by
    intro chunk cells hcells
    have hlength : a.slots.cells.chunkLength = k.cellsPerChunk l :=
      (SlotTable.Reachable.hasShape h).length_cells
    rw [h.wellFormed.cells.size_of_mem cells (Array.mem_of_getElem? hcells), hlength]
    cases k <;> rfl
  size_words := by
    intro chunk words hwords
    rw [h.wellFormed.words.size_of_mem words (Array.mem_of_getElem? hwords)]
    exact (SlotTable.Reachable.hasShape h).words_length
  reservations_values := by
    rw [h.wellFormed.cells.reservations_eq, Array.size_replicate]
    rfl
  reservations_words := by
    rw [h.wellFormed.words.reservations_eq, Array.size_replicate]
    rfl
  accumulate := by
    intro budget input ordinals hinput
    have hresult := h.fits.accumulate_ne_outOfBounds hinput budget ordinals
    exact ⟨(a.accumulate_ne_outOfBounds_iff budget input ordinals).mp hresult, hresult⟩
  scalar := by
    intro o
    have hresult := h.fits.scalar_ne_outOfBounds o
    exact ⟨(a.scalar_ne_outOfBounds_iff o).mp hresult, hresult⟩
  isValid := by
    intro o
    have hresult := h.fits.isSome_isValid? o
    exact ⟨(a.isSome_isValid?_iff o).mp hresult, Option.isSome_iff_ne_none.mp hresult⟩

end Accumulator

namespace AnyAccumulator

/-- An accumulator after any calls, made for a data type or with a kernel of one's choice. Each call
may find the budget in a different state. -/
inductive Reachable (l : ChunkLayout) : AnyAccumulator → Prop where
  | ofDataType {e : Extremum} {t : DataType} {a : AnyAccumulator} (h : create e t l = .ok a) :
      Reachable l a
  | ofKernel {k : Kernel} {e : Extremum} {t : DataType} {a : Accumulator k}
      (h : Accumulator.create k e t l = .ok a) : Reachable l ⟨k, a⟩
  /-- One more call, successful or not. -/
  | step {a : AnyAccumulator} (h : Reachable l a) (budget : Budget) (c : Call) :
      Reachable l (a.step budget c).2.1

variable {l : ChunkLayout} {a : AnyAccumulator}

theorem Reachable.usesLayout (h : Reachable l a) : a.accumulator.UsesLayout l := by
  induction h with
  | ofDataType h => exact (usesLayout_create h).1
  | ofKernel h => exact (Accumulator.usesLayout_create h).1
  | step _ budget c ih => exact (ih.step budget c).usesLayout

/-- Accumulators stay in bounds, whatever has been called and whatever has failed. -/
theorem Reachable.staysInBounds (h : Reachable l a) : a.accumulator.StaysInBounds l :=
  h.usesLayout.toStaysInBounds

/-- The second growth finds 4 bytes left, enough for a chunk of truth values but not for its
validity, and is undone. What is then accumulated for an ordinal of the second chunk is in
bounds. -/
theorem Reachable.staysInBounds_of_undone_growth :
    ∃ a, create .max .boolean ⟨5, by decide, by decide⟩ = .ok a ∧
      ((a.step ⟨some 100, 80⟩ (.resize 1)).2.1.step ⟨some 100, 96⟩
        (.resize 2)).2.1.accumulator.size = 1 ∧
      AllInBounds (((a.step ⟨some 100, 80⟩ (.resize 1)).2.1.step ⟨some 100, 96⟩
        (.resize 2)).2.1.accumulator.accumulateAccesses (.ofLimit none)
          (.boolean (.ofValues ⟨2, #[1]⟩)) [3, 40]) := by
  obtain ⟨a, ha, hsize⟩ : ∃ a, create .max .boolean ⟨5, by decide, by decide⟩ = .ok a ∧
      ((a.step ⟨some 100, 80⟩ (.resize 1)).2.1.step ⟨some 100, 96⟩
        (.resize 2)).2.1.accumulator.size = 1 := ⟨_, rfl, by decide⟩
  have hreach := ((ofDataType ha).step ⟨some 100, 80⟩ (.resize 1)).step ⟨some 100, 96⟩ (.resize 2)
  exact ⟨a, ha, hsize, (hreach.staysInBounds.accumulate _ _ _ (by decide)).1⟩

end AnyAccumulator

end GroupedExtrema
