import GroupedExtrema.Proofs.Run

/-!
# Accumulators that are alike

Two accumulators are alike if nobody who reads their regions can tell them apart, except by the sign
of a zero or by which NaN a NaN is: they have as many chunks, the same words of validity, and in
every chunk cells that are alike.

The invariant of accumulators says what is in every slot, and every cell and word consists of slots.
So accumulators that hold the same values in every slot are alike, whatever has led to them. What a
slot holds depends on which values there are, and not on how often or in which order they came.
-/

namespace GroupedExtrema

namespace Kernel

/-- The two values of a slot are equal, or for floating-point values they are one number or both
NaN. -/
def Alike : (k : Kernel) → k.Value → k.Value → Prop
  | int32, v, w => v = w
  | int64, v, w => v = w
  | float32, v, w => Ieee.Alike v w
  | float64, v, w => Ieee.Alike v w
  | decimal128, v, w => Ieee.Alike v w
  | boolean, v, w => v = w
  | intervalDayTime, v, w => v = w

/-- The two cells are equal, or for floating-point values they are one number or both NaN. -/
def CellAlike : (k : Kernel) → k.Cell → k.Cell → Prop
  | int32, c, d => c = d
  | int64, c, d => c = d
  | float32, c, d => Ieee.Alike c d
  | float64, c, d => Ieee.Alike c d
  | decimal128, c, d => Ieee.Alike c d
  | boolean, c, d => c = d
  | intervalDayTime, c, d => c = d

/-- The two chunks have as many cells, and these are alike. -/
def ChunkAlike (k : Kernel) (xs ys : Array k.Cell) : Prop :=
  ∀ i : Nat, Option.Rel k.CellAlike xs[i]? ys[i]?

/-- Combining the same values, in whatever order and however often, gives values that are alike. -/
theorem alike_contents (e : Extremum) (k : Kernel) {vs ws : List k.Value}
    (hmem : ∀ v, v ∈ vs ↔ v ∈ ws) : k.Alike (k.contents e vs).1 (k.contents e ws).1 := by
  rw [contents_eq, contents_eq]
  cases k with
  | int32 => exact e.foldl_pick_congr _ hmem
  | int64 => exact e.foldl_pick_congr _ hmem
  | float32 => exact Fold.alike_foldl_floatPick e hmem
  | float64 => exact Fold.alike_foldl_floatPick e hmem
  | decimal128 => exact Fold.alike_foldl_floatPick e hmem
  | boolean => exact Fold.foldl_pick_bool_congr e _ hmem
  | intervalDayTime => exact Fold.foldl_intervalPick_congr e _ hmem

/-- A cell is what its slots are: two cells at an index are alike if they read alike at all slots
that have their cell there. -/
theorem cellAlike_of_readCell {k : Kernel} {l : ChunkLayout} {i : Nat} (hi : i < k.cellsPerChunk l)
    (chunk : Nat) {c d : k.Cell}
    (h : ∀ offset < l.capacity, k.cellIndex ⟨chunk, offset⟩ = i →
      k.Alike (k.readCell (offset &&& 31) c) (k.readCell (offset &&& 31) d)) :
    k.CellAlike c d := by
  cases k with
  | boolean =>
      apply BitVec.eq_of_getLsbD_eq
      intro j hj
      -- Bit `j` of the word is the slot at this offset.
      have hcapacity := l.mul_wordsPerChunk
      have hi : i < l.wordsPerChunk := hi
      have hword : (⟨chunk, 32 * i + j⟩ : SlotAddress).word = i := by
        rw [SlotAddress.word_eq_div]
        show (32 * i + j) / 32 = i
        omega
      have hbit : (32 * i + j) &&& 31 = j := by
        rw [show (32 * i + j) &&& 31 = (⟨chunk, 32 * i + j⟩ : SlotAddress).bit from rfl,
          SlotAddress.bit_eq_mod]
        show (32 * i + j) % 32 = j
        omega
      have hread := h (32 * i + j) (by omega) hword
      rw [hbit] at hread
      exact hread
  -- All other cells are one slot.
  | _ => exact h i hi rfl

end Kernel

namespace Accumulator

variable {k : Kernel} {e : Extremum} {l : ChunkLayout} {a b : Accumulator k}
  {V W : Nat → List k.Value}

/-- The accumulators have as many chunks, of alike cells and equal words of validity. -/
structure Alike (a b : Accumulator k) : Prop where
  size_eq : a.size = b.size
  validityChunk?_eq : ∀ chunk, a.validityChunk? chunk = b.validityChunk? chunk
  valueChunk?_alike : ∀ chunk, Option.Rel k.ChunkAlike (a.valueChunk? chunk) (b.valueChunk? chunk)

/-! ### Chunks as slots -/

/-- A chunk of validity has a bit for each of its slots. -/
theorem Holds.exists_words (h : a.Holds e l V) {chunk : Nat} (hchunk : chunk < a.size) :
    ∃ words, a.validityChunk? chunk = some words ∧ words.size = l.wordsPerChunk ∧
      ∀ offset < l.capacity, ∃ word, words[offset >>> 5]? = some word ∧
        word.getLsbD (offset &&& 31) = decide (V (chunk * l.capacity + offset) ≠ []) := by
  have hlayout : a.slots.layout = l := h.layout_eq
  have hsize : chunk < a.slots.validity.words.size :=
    h.fits.wellFormed.size_words.symm ▸ hchunk
  have hwords : a.validityChunk? chunk = some a.slots.validity.words.chunks[chunk] :=
    Array.getElem?_eq_getElem hsize
  refine ⟨_, hwords, ?_, ?_⟩
  · rw [h.fits.wellFormed.words.size_of_mem _ (Array.getElem_mem hsize),
      h.fits.wellFormed.length_words, hlayout]
  · intro offset hoffset
    obtain ⟨words', word, hwords', hword, hvalid⟩ := (h.showsRaw_at hchunk hoffset).validity
    rw [hwords] at hwords'
    obtain rfl := Option.some.inj hwords'
    exact ⟨word, hword, hvalid⟩

/-- A chunk of values has a place in a cell for each of its slots. -/
theorem Holds.exists_cells (h : a.Holds e l V) {chunk : Nat} (hchunk : chunk < a.size) :
    ∃ cells, a.valueChunk? chunk = some cells ∧ cells.size = k.cellsPerChunk l ∧
      ∀ offset < l.capacity, ∃ cell, cells[k.cellIndex ⟨chunk, offset⟩]? = some cell ∧
        k.readCell (offset &&& 31) cell =
          (k.contents e (V (chunk * l.capacity + offset))).1 := by
  have hlayout : a.slots.layout = l := h.layout_eq
  have hcells : a.valueChunk? chunk = some a.slots.cells.chunks[chunk] :=
    Array.getElem?_eq_getElem hchunk
  refine ⟨_, hcells, ?_, ?_⟩
  · rw [h.fits.wellFormed.cells.size_of_mem _ (Array.getElem_mem hchunk), h.fits.length_cells,
      hlayout]
  · intro offset hoffset
    obtain ⟨cells', cell, hcells', hcell, hvalue⟩ := (h.showsRaw_at hchunk hoffset).value
    rw [hcells] at hcells'
    obtain rfl := Option.some.inj hcells'
    exact ⟨cell, hcell, hvalue⟩

/-- Past the last chunk there is none in either region. -/
theorem Holds.chunk?_eq_none (h : a.Holds e l V) {chunk : Nat} (hchunk : a.size ≤ chunk) :
    a.validityChunk? chunk = none ∧ a.valueChunk? chunk = none := by
  have hwords : a.slots.validity.words.size ≤ chunk := h.fits.wellFormed.size_words.symm ▸ hchunk
  exact ⟨Array.getElem?_eq_none hwords, Array.getElem?_eq_none hchunk⟩

/-! ### The same values in every slot -/

/-- Where every slot holds a value in both accumulators or in neither, validity is the same. -/
theorem Holds.validityChunk?_congr (ha : a.Holds e l V) (hb : b.Holds e l W)
    (hsize : a.size = b.size) (hnil : ∀ n, V n = [] ↔ W n = []) (chunk : Nat) :
    a.validityChunk? chunk = b.validityChunk? chunk := by
  by_cases hchunk : chunk < a.size
  · obtain ⟨xs, hxs, hxsize, hxbits⟩ := ha.exists_words hchunk
    obtain ⟨ys, hys, hysize, hybits⟩ := hb.exists_words (hsize ▸ hchunk)
    rw [hxs, hys, Option.some.injEq]
    apply Array.ext (hxsize.trans hysize.symm)
    intro i hi hi'
    -- A word is compared as the cells of truth values are, bit by bit.
    refine Kernel.cellAlike_of_readCell (k := .boolean) (l := l) (hxsize ▸ hi) chunk ?_
    intro offset hoffset hindex
    obtain ⟨x, hx, hxbit⟩ := hxbits offset hoffset
    obtain ⟨y, hy, hybit⟩ := hybits offset hoffset
    rw [show offset >>> 5 = i from hindex] at hx hy
    rw [Array.getElem?_eq_getElem hi, Option.some.injEq] at hx
    rw [Array.getElem?_eq_getElem hi', Option.some.injEq] at hy
    subst hx hy
    refine hxbit.trans (Eq.trans ?_ hybit.symm)
    exact decide_eq_decide.mpr (not_congr (hnil _))
  · rw [(ha.chunk?_eq_none (Nat.not_lt.mp hchunk)).1,
      (hb.chunk?_eq_none (hsize ▸ Nat.not_lt.mp hchunk)).1]

/-- Where every slot holds the same values in both accumulators, chunks are alike. -/
theorem Holds.valueChunk?_alike (ha : a.Holds e l V) (hb : b.Holds e l W)
    (hsize : a.size = b.size) (hmem : ∀ n v, v ∈ V n ↔ v ∈ W n) (chunk : Nat) :
    Option.Rel k.ChunkAlike (a.valueChunk? chunk) (b.valueChunk? chunk) := by
  by_cases hchunk : chunk < a.size
  · obtain ⟨xs, hxs, hxsize, hxvalues⟩ := ha.exists_cells hchunk
    obtain ⟨ys, hys, hysize, hyvalues⟩ := hb.exists_cells (hsize ▸ hchunk)
    rw [hxs, hys]
    refine .some fun i => ?_
    by_cases hi : i < xs.size
    · have hi' : i < ys.size := by omega
      rw [Array.getElem?_eq_getElem hi, Array.getElem?_eq_getElem hi']
      refine .some (Kernel.cellAlike_of_readCell (l := l) (hxsize ▸ hi) chunk ?_)
      intro offset hoffset hindex
      obtain ⟨x, hx, hxvalue⟩ := hxvalues offset hoffset
      obtain ⟨y, hy, hyvalue⟩ := hyvalues offset hoffset
      rw [hindex] at hx hy
      rw [Array.getElem?_eq_getElem hi, Option.some.injEq] at hx
      rw [Array.getElem?_eq_getElem hi', Option.some.injEq] at hy
      subst hx hy
      rw [hxvalue, hyvalue]
      exact Kernel.alike_contents e k (hmem _)
    · rw [Array.getElem?_eq_none (Nat.not_lt.mp hi), Array.getElem?_eq_none (by omega)]
      exact .none
  · rw [(ha.chunk?_eq_none (Nat.not_lt.mp hchunk)).2,
      (hb.chunk?_eq_none (hsize ▸ Nat.not_lt.mp hchunk)).2]
    exact .none

/-- Accumulators of one size that hold the same values in every slot are alike. -/
theorem Holds.alike (ha : a.Holds e l V) (hb : b.Holds e l W) (hsize : a.size = b.size)
    (hmem : ∀ n v, v ∈ V n ↔ v ∈ W n) : a.Alike b where
  size_eq := hsize
  validityChunk?_eq := by
    refine ha.validityChunk?_congr hb hsize fun n => ?_
    simp only [List.eq_nil_iff_forall_not_mem, hmem]
  valueChunk?_alike := ha.valueChunk?_alike hb hsize hmem

end Accumulator

end GroupedExtrema
