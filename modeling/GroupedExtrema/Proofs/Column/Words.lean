import GroupedExtrema.Proofs.Column.Bits

/-!
# Bitmaps read word by word

A row is looked up in a bitmap in three ways: with a check of the index, by shift and mask in its
byte, and, for 64 rows at once, in a word put together from eight bytes. Each reader computes its own
place, and all of them find the same bit.

The last word is mostly not full, nor is its last byte. What is read there is zero, if the bitmap
stores a list of bits and nothing past it (`Stores`), as it does unless its bits have been collected
from an iterator that goes on after its end. Therefore the words that the bits take, and the
length, are all there is to know about a bitmap: `ofWords` makes it of them again.
-/

namespace GroupedExtrema.Bitmap

/-! ### Words -/

/-- The words that the bits of a bitmap take. -/
def words (b : Bitmap) : List (BitVec 64) := (List.range ((b.length + 63) / 64)).map b.word64

/-- So many of the bits of some words. -/
def ofWords (length : Nat) (words : List (BitVec 64)) : Bitmap :=
  ofList ((List.range length).map fun i => (words[i / 64]?.getD 0).getLsbD (i % 64))

/-- A word reads as the list does, and as zero where the list has ended. -/
theorem Stores.getLsbD_word64 {b : Bitmap} {bits : List Bool} (h : b.Stores bits) (i : Nat) :
    (b.word64 (i / 64)).getLsbD (i % 64) = bits[i]?.getD false :=
  (wordBit_eq b i).trans (h.storedBit_eq i)

theorem Stores.word64_eq_zero {b : Bitmap} {bits : List Bool} (h : b.Stores bits) {w : Nat}
    (hw : (b.length + 63) / 64 ≤ w) : b.word64 w = 0 := by
  apply BitVec.eq_of_getLsbD_eq
  intro k hk
  have hdiv : (64 * w + k) / 64 = w := by omega
  have hmod : (64 * w + k) % 64 = k := by omega
  have hpast : bits.length ≤ 64 * w + k := by
    rw [← h.length_eq]
    omega
  have hbit := h.getLsbD_word64 (64 * w + k)
  rw [hdiv, hmod, List.getElem?_eq_none hpast] at hbit
  rw [hbit]
  exact BitVec.getLsbD_zero.symm

/-- The bits are in the words, in their order. -/
theorem Stores.ofWords_words {b : Bitmap} {bits : List Bool} (h : b.Stores bits) :
    ofWords b.length b.words = b := by
  have hbits : (List.range b.length).map
      (fun i => (b.words[i / 64]?.getD 0).getLsbD (i % 64)) = bits := by
    apply List.ext_getElem
    · rw [List.length_map, List.length_range, h.length_eq]
    · intro i hi hi'
      have hlength := h.length_eq
      have hword : b.words[i / 64]? = some (b.word64 (i / 64)) := by
        rw [words, List.getElem?_map, List.getElem?_range (by omega), Option.map_some]
      rw [List.getElem_map, List.getElem_range, hword, Option.getD_some, h.getLsbD_word64,
        List.getElem?_eq_getElem hi', Option.getD_some]
  rw [ofWords, hbits]
  exact (stores_ofList bits).unique h

/-- The bitmap is the only one of its length with its words. -/
theorem Stores.eq_iff_word64 {b b' : Bitmap} {bits bits' : List Bool} (h : b.Stores bits)
    (h' : b'.Stores bits') :
    b = b' ↔ b.length = b'.length ∧ ∀ w < (b.length + 63) / 64, b.word64 w = b'.word64 w := by
  constructor
  · intro heq
    subst heq
    exact ⟨rfl, fun _ _ => rfl⟩
  · intro hsame
    obtain ⟨hlength, hword64⟩ := hsame
    have hwords : b.words = b'.words := by
      rw [words, words, ← hlength]
      exact List.map_congr_left fun w hw => hword64 w (List.mem_range.mp hw)
    rw [← h.ofWords_words, ← h'.ofWords_words, hlength, hwords]

/-! ### Readers -/

/-- Every row of the bitmap has a bit, and all of the readers find it. -/
def ReadersAgree (b : Bitmap) : Prop :=
  ∀ i < b.length, ∃ bit, b.get? i = some bit ∧ b.rawBit? i = some bit ∧
    (b.word64 (i / 64)).getLsbD (i % 64) = bit

theorem WellFormed.readersAgree {b : Bitmap} (h : b.WellFormed) : b.ReadersAgree := by
  intro i hi
  obtain ⟨bit, hbit⟩ := h.exists_get? hi
  exact ⟨bit, hbit, (rawBit?_eq_get? hi).trans hbit, wordBit_of_get? hbit⟩

/-- The words of the bitmap are its bits and zeros past them. -/
structure IsItsWords (b : Bitmap) : Prop where
  past_end : ∀ i, b.length ≤ i → (b.word64 (i / 64)).getLsbD (i % 64) = false
  word64_eq_zero : ∀ w, (b.length + 63) / 64 ≤ w → b.word64 w = 0
  /-- The words that the bits take and the length determine the bitmap. -/
  ofWords_words : ofWords b.length b.words = b

theorem Stores.isItsWords {b : Bitmap} {bits : List Bool} (h : b.Stores bits) : b.IsItsWords where
  past_end := by
    intro i hi
    have hpast : bits.length ≤ i := h.length_eq ▸ hi
    rw [h.getLsbD_word64, List.getElem?_eq_none hpast, Option.getD_none]
  word64_eq_zero := fun _ => h.word64_eq_zero
  ofWords_words := h.ofWords_words

/-- However a bitmap has been made and changed, its readers agree at every row, if its length can be
rounded up to bytes. If the iterators that its bits have been collected from stay at their end, then
zeros are read past the end of the bitmap, and its words and its length tell it from all others. -/
theorem Recipe.words_are_bits {r : Recipe} {b : Bitmap} (h : r.bitmap? = some b)
    (hround : RoundsUp b.length) :
    b.ReadersAgree ∧
    (r.IsFused → b.IsItsWords ∧
      ∀ (r' : Recipe) (b' : Bitmap), r'.bitmap? = some b' → r'.IsFused →
        (b = b' ↔ b.length = b'.length ∧
          ∀ w < (b.length + 63) / 64, b.word64 w = b'.word64 w)) := by
  refine ⟨(r.wellFormed h hround).readersAgree, ?_⟩
  intro hfused
  obtain ⟨bits, -, hstores⟩ := r.exists_bits h hfused hround
  refine ⟨hstores.isItsWords, ?_⟩
  intro r' b' h' hfused'
  constructor
  · intro heq
    subst heq
    exact ⟨rfl, fun _ _ => rfl⟩
  · intro hsame
    -- The length of the other one can be rounded up since it is the same.
    obtain ⟨bits', -, hstores'⟩ := r'.exists_bits h' hfused' (hsame.1 ▸ hround)
    exact (hstores.eq_iff_word64 hstores').mpr hsame

/-- Seventy ones, the last of them cleared and one more bit pushed: the second word and its first
byte are begun only. -/
theorem Recipe.words_are_bits_of_two_words :
    ∃ b, (((Recipe.filled true 70).set 69 false).push true).bitmap? = some b ∧ b.length = 71 ∧
      b.get? 69 = some false ∧ b.rawBit? 69 = some false ∧ (b.word64 1).getLsbD 5 = false ∧
      b.get? 70 = some true ∧ b.rawBit? 70 = some true ∧ (b.word64 1).getLsbD 6 = true ∧
      (b.word64 1).getLsbD 7 = false ∧ b.word64 2 = 0 := by
  obtain ⟨b, hb, hlength, hcleared, hpushed⟩ :
      ∃ b, (((Recipe.filled true 70).set 69 false).push true).bitmap? = some b ∧ b.length = 71 ∧
        b.get? 69 = some false ∧ b.get? 70 = some true := ⟨_, rfl, rfl, by decide, by decide⟩
  have hround : RoundsUp b.length := hlength ▸ by decide
  obtain ⟨hagree, hwords⟩ := Recipe.words_are_bits hb hround
  obtain ⟨hzeros, -⟩ := hwords trivial
  obtain ⟨bit, hbit, hraw, hword⟩ := hagree 69 (by omega)
  obtain rfl : bit = false := Option.some.inj (hbit.symm.trans hcleared)
  obtain ⟨bit', hbit', hraw', hword'⟩ := hagree 70 (by omega)
  obtain rfl : bit' = true := Option.some.inj (hbit'.symm.trans hpushed)
  exact ⟨b, hb, hlength, hbit, hraw, hword, hbit', hraw', hword',
    hzeros.past_end 71 (by omega), hzeros.word64_eq_zero 2 (by omega)⟩

end GroupedExtrema.Bitmap
