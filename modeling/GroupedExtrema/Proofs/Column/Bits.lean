import GroupedExtrema.Proofs.Column.Bitmap

/-!
# Bitmaps as lists of bits

A bitmap is compared and read by its bytes, so it has to be known exactly which bytes it has. They
are looked at through `storedBit`, the bit at any place, whether there is a byte for it or not. A
bitmap stores a list of bits if it has just the bytes that the list takes and every place past the
list is zero; then the list determines the bitmap.

Each way to make a bitmap stores the list that it is made from: filling it, if its length can be
rounded up to bytes (`RoundsUp`), and collecting its bits, if the iterator stays at its end
(`Answers.IsFused`). Pushing and setting a bit do to the list what they do to the bitmap. So a
bitmap is what `ofList` makes of its bits, whatever has been done to come to it.
-/

namespace GroupedExtrema.Bitmap

/-! ### Bits of bytes -/

/-- The bit at a place of some bytes; zero where there is no byte. -/
def storedBit (bytes : Array (BitVec 8)) (i : Nat) : Bool :=
  (bytes[i / 8]?.getD 0).getLsbD (i % 8)

/-- Bytes that are as many and have the same bits are the same. -/
theorem bytes_ext {xs ys : Array (BitVec 8)} (hsize : xs.size = ys.size)
    (hbits : ∀ i, storedBit xs i = storedBit ys i) : xs = ys := by
  apply Array.ext hsize
  intro j hx hy
  apply BitVec.eq_of_getLsbD_eq
  intro k hk
  have hdiv : (8 * j + k) / 8 = j := by omega
  have hmod : (8 * j + k) % 8 = k := by omega
  have hbit := hbits (8 * j + k)
  rw [storedBit, storedBit, hdiv, hmod, Array.getElem?_eq_getElem hx,
    Array.getElem?_eq_getElem hy] at hbit
  exact hbit

theorem storedBit_push_zero (bytes : Array (BitVec 8)) (i : Nat) :
    storedBit (bytes.push 0#8) i = storedBit bytes i := by
  rw [storedBit, storedBit, Array.getElem?_push]
  split
  case isTrue hlast =>
      rw [hlast, Array.getElem?_eq_none (Nat.le_refl _)]
      rfl
  case isFalse => rfl

theorem getLsbD_putBit (byte : BitVec 8) {i j : Nat} (hj : j < 8) (value : Bool) :
    (putBit byte i value).getLsbD j = if j = i then value else byte.getLsbD j := by
  have hone : (1#8 <<< i).getLsbD j = decide (j = i) := by
    rw [← BitVec.twoPow_eq, BitVec.getLsbD_twoPow]
    simp only [eq_comm (a := i)]
    by_cases hij : j = i
    · simp [hij, hij ▸ hj]
    · simp [hij]
  cases value with
  | true =>
      rw [putBit, if_pos rfl, BitVec.getLsbD_or, hone]
      by_cases hij : j = i <;> simp [hij]
  | false =>
      rw [putBit, if_neg (by decide), BitVec.getLsbD_and, BitVec.getLsbD_not, hone]
      by_cases hij : j = i <;> simp [hij, hj]

/-- Writing a bit that has a byte changes this bit only. -/
theorem storedBit_modify {bytes : Array (BitVec 8)} {p : Nat} (hp : p / 8 < bytes.size)
    (value : Bool) (i : Nat) :
    storedBit (bytes.modify (p / 8) (putBit · (p % 8) value)) i =
      if i = p then value else storedBit bytes i := by
  have hi : i % 8 < 8 := Nat.mod_lt i (by decide)
  rw [storedBit, storedBit, Array.getElem?_modify]
  by_cases hbyte : p / 8 = i / 8
  · rw [if_pos hbyte, ← hbyte, Array.getElem?_eq_getElem hp, Option.map_some, Option.getD_some,
      Option.getD_some, getLsbD_putBit _ hi]
    -- Within one byte, places are told apart by the remainder.
    have hiff : i % 8 = p % 8 ↔ i = p := by omega
    simp only [hiff]
  · have hne : i ≠ p := fun h => hbyte (by rw [h])
    rw [if_neg hbyte, if_neg hne]

/-! ### Storing a list of bits -/

/-- The bytes of the bitmap are those of the list of bits: as many as it takes, and zero at every
place past it. -/
structure Stores (b : Bitmap) (bits : List Bool) : Prop where
  length_eq : b.length = bits.length
  size_bytes : b.bytes.size = (bits.length + 7) / 8
  storedBit_eq : ∀ i, storedBit b.bytes i = bits[i]?.getD false

/-- A list of bits is stored in one way only. -/
theorem Stores.unique {b b' : Bitmap} {bits : List Bool} (h : b.Stores bits)
    (h' : b'.Stores bits) : b = b' := by
  have hlength : b.length = b'.length := h.length_eq.trans h'.length_eq.symm
  have hsize : b.bytes.size = b'.bytes.size := by
    rw [h.size_bytes, h'.size_bytes]
  have hbytes : b.bytes = b'.bytes := bytes_ext hsize fun i =>
    (h.storedBit_eq i).trans (h'.storedBit_eq i).symm
  cases b
  cases b'
  exact congr (congrArg Bitmap.mk hlength) hbytes

/-- Reading finds the bits of the list, and none past it. -/
theorem Stores.get?_eq {b : Bitmap} {bits : List Bool} (h : b.Stores bits) (i : Nat) :
    b.get? i = bits[i]? := by
  by_cases hi : i < b.length
  · have hbyte : i / 8 < b.bytes.size := by
      rw [h.size_bytes, ← h.length_eq]
      omega
    have hbit := h.storedBit_eq i
    rw [storedBit, Array.getElem?_eq_getElem hbyte, Option.getD_some,
      List.getElem?_eq_getElem (h.length_eq ▸ hi), Option.getD_some] at hbit
    rw [get?, if_pos hi, Array.getElem?_eq_getElem hbyte, Option.map_some, hbit,
      List.getElem?_eq_getElem (h.length_eq ▸ hi)]
  · rw [get?, if_neg hi, List.getElem?_eq_none (h.length_eq ▸ Nat.not_lt.mp hi)]

/-- Bits of the last byte past the end are zero. -/
theorem Stores.getLsbD_eq_false {b : Bitmap} {bits : List Bool} (h : b.Stores bits) {j : Nat}
    {byte : BitVec 8} (hj : b.bytes[j]? = some byte) {k : Nat} (hk : k < 8)
    (hpast : b.length ≤ 8 * j + k) : byte.getLsbD k = false := by
  have hdiv : (8 * j + k) / 8 = j := by omega
  have hmod : (8 * j + k) % 8 = k := by omega
  have hbit := h.storedBit_eq (8 * j + k)
  rw [storedBit, hdiv, hmod, hj, List.getElem?_eq_none (h.length_eq ▸ hpast)] at hbit
  exact hbit

/-! ### Blocks of bits -/

theorem stores_empty : empty.Stores [] := by
  refine ⟨rfl, rfl, ?_⟩
  intro i
  simp [storedBit, empty]

theorem getLsbD_packByte (bits : List Bool) {k : Nat} (hk : k < 8) :
    (packByte bits).getLsbD k = bits[k]?.getD false := by
  induction bits generalizing k with
  | nil => simp [packByte]
  | cons b bs ih =>
      rw [packByte, BitVec.getLsbD_or, BitVec.getLsbD_shiftLeft, BitVec.getLsbD_setWidth]
      cases k with
      | zero => simp
      | succ k =>
          rw [Nat.add_sub_cancel, ih (by omega)]
          simp [hk]

/-- A block is a byte, and its bits are the first ones. -/
theorem storedBit_cons (block : List Bool) (blocks : List (List Bool)) (i : Nat) :
    storedBit (ofBlocks (block :: blocks)).bytes i =
      if i < 8 then block[i]?.getD false else storedBit (ofBlocks blocks).bytes (i - 8) := by
  simp only [storedBit, ofBlocks, List.getElem?_toArray, List.map_cons]
  split
  case isTrue hfirst =>
      have hdiv : i / 8 = 0 := by omega
      have hmod : i % 8 = i := by omega
      rw [hdiv, hmod, List.getElem?_cons_zero, Option.getD_some, getLsbD_packByte block hfirst]
  case isFalse hrest =>
      have hdiv : i / 8 = (i - 8) / 8 + 1 := by omega
      have hmod : i % 8 = (i - 8) % 8 := by omega
      rw [hdiv, hmod, List.getElem?_cons_succ]

theorem stores_ofBlocks_nil : (ofBlocks []).Stores [] := stores_empty

/-- The last block need not be full. -/
theorem stores_ofBlocks_singleton {block : List Bool} (hpos : block ≠ []) (hle : block.length ≤ 8) :
    (ofBlocks [block]).Stores block := by
  have hlength := List.length_pos_iff.mpr hpos
  refine ⟨by simp, ?_, ?_⟩
  · rw [size_bytes_ofBlocks, List.length_singleton]
    omega
  · intro i
    rw [storedBit_cons, stores_ofBlocks_nil.storedBit_eq]
    split
    case isTrue => rfl
    case isFalse hpast =>
        rw [List.getElem?_eq_none (l := block) (by omega)]
        rfl

/-- A full block stands before the bits of the others. -/
theorem Stores.cons {block bits : List Bool} {blocks : List (List Bool)}
    (h : (ofBlocks blocks).Stores bits) (hfull : block.length = 8) :
    (ofBlocks (block :: blocks)).Stores (block ++ bits) := by
  have hlength : (blocks.map List.length).sum = bits.length := h.length_eq
  have hsize : blocks.length = (bits.length + 7) / 8 :=
    (size_bytes_ofBlocks blocks).symm.trans h.size_bytes
  refine ⟨?_, ?_, ?_⟩
  · rw [length_ofBlocks, List.map_cons, List.sum_cons, hlength, List.length_append]
  · rw [size_bytes_ofBlocks, List.length_cons, hsize, List.length_append, hfull]
    omega
  · intro i
    rw [storedBit_cons, h.storedBit_eq, List.getElem?_append, hfull]
    split <;> rfl

/-! ### Bits of an iterator -/

namespace Answers

/-- The bits before the iterator first says that there are no more. -/
def bits : Answers → List Bool
  | some bit :: answers => bit :: bits answers
  | _ => []

@[simp] theorem bits_nil : bits [] = [] := rfl

@[simp] theorem bits_none (answers : Answers) : bits (none :: answers) = [] := rfl

@[simp] theorem bits_some (bit : Bool) (answers : Answers) :
    bits (some bit :: answers) = bit :: bits answers := rfl

/-- Once the iterator has said that there are no more bits, it says so for good. -/
def IsFused (answers : Answers) : Prop := ∀ a ∈ answers.dropWhile Option.isSome, a = none

instance (answers : Answers) : Decidable answers.IsFused :=
  inferInstanceAs (Decidable (∀ a ∈ answers.dropWhile Option.isSome, a = none))

theorem isFused_map_some (xs : List Bool) : IsFused (xs.map some) := by
  induction xs with
  | nil => simp [IsFused]
  | cons x xs ih => exact ih

theorem bits_map_some (xs : List Bool) : bits (xs.map some) = xs := by
  induction xs with
  | nil => rfl
  | cons x xs ih => rw [List.map_cons, bits_some, ih]

end Answers

/-- An iterator that stays at its end adds nothing to the block that is begun. -/
theorem blocks_of_forall_eq_none {answers : Answers} (h : ∀ a ∈ answers, a = none)
    (block : List Bool) : blocks block answers = blocks block [] := by
  induction answers generalizing block with
  | nil => rfl
  | cons answer answers ih =>
      obtain ⟨rfl, hanswers⟩ := List.forall_mem_cons.mp h
      rw [blocks, blocks, ih hanswers]
      rfl

/-- What is left at the end is the block that is begun, unless it is empty. -/
theorem stores_ofBlocks_last {block : List Bool} (hblock : block.length < 8) :
    (ofBlocks (blocks block [])).Stores block := by
  rw [blocks]
  split
  case isTrue hempty =>
      obtain rfl := List.isEmpty_iff.mp hempty
      exact stores_ofBlocks_nil
  case isFalse hbegun =>
      exact stores_ofBlocks_singleton (mt List.isEmpty_iff.mpr hbegun) (Nat.le_of_lt hblock)

/-- The bits of a fused iterator come to stand behind those of the block that is begun. -/
theorem stores_ofBlocks_blocks {answers : Answers} (h : answers.IsFused) {block : List Bool}
    (hblock : block.length < 8) :
    (ofBlocks (blocks block answers)).Stores (block ++ answers.bits) := by
  -- A bit goes to the block that is begun, whose place the next one takes if this is its eighth bit.
  induction answers generalizing block with
  | nil =>
      rw [Answers.bits_nil, List.append_nil]
      exact stores_ofBlocks_last hblock
  | cons answer answers ih =>
      cases answer with
      | none =>
          have hend : ∀ a ∈ none :: answers, a = none := h
          rw [Answers.bits_none, List.append_nil, blocks_of_forall_eq_none hend]
          exact stores_ofBlocks_last hblock
      | some bit =>
          have hfused : Answers.IsFused answers := h
          rw [Answers.bits_some, List.append_cons, blocks]
          split
          case isTrue hlast =>
              have hrest : (ofBlocks (blocks [] answers)).Stores ([] ++ Answers.bits answers) :=
                ih hfused (by decide)
              exact hrest.cons (by simp [hlast])
          case isFalse hbegun =>
              apply ih hfused
              rw [List.length_append, List.length_singleton]
              omega

/-- The bits that are collected from a fused iterator are those that it gives. -/
theorem stores_collect {answers : Answers} (h : answers.IsFused) :
    (collect answers).Stores answers.bits :=
  stores_ofBlocks_blocks h (by decide)

theorem stores_ofList (bits : List Bool) : (ofList bits).Stores bits := by
  have hstores := stores_collect (Answers.isFused_map_some bits)
  rw [Answers.bits_map_some] at hstores
  exact hstores

@[simp] theorem length_ofList (bits : List Bool) : (ofList bits).length = bits.length :=
  (stores_ofList bits).length_eq

/-! ### Bits of one value -/

/-- Equal bytes of eight bits of one value. -/
theorem storedBit_replicate (size : Nat) (value : Bool) (i : Nat) :
    storedBit (Array.replicate size (if value then BitVec.allOnes 8 else 0#8)) i =
      (decide (i / 8 < size) && value) := by
  have hbyte : (if value then BitVec.allOnes 8 else 0#8).getLsbD (i % 8) = value := by
    cases value with
    | true =>
        rw [if_pos rfl, BitVec.getLsbD_allOnes]
        exact decide_eq_true (Nat.mod_lt i (by decide))
    | false => exact BitVec.getLsbD_zero
  rw [storedBit, Array.getElem?_replicate]
  by_cases hsize : i / 8 < size
  · rw [if_pos hsize, Option.getD_some, hbyte]
    simp [hsize]
  · simp [hsize]

/-- The mask of a byte that is begun only keeps the places before its end. -/
theorem getLsbD_lowMask :
    ∀ rest < 8, ∀ k < 8, ((1#8 <<< rest) - 1).getLsbD k = decide (k < rest) := by
  decide

theorem storedBit_modify_mask {bytes : Array (BitVec 8)} {rest : Nat} (hrest : rest < 8)
    (last i : Nat) :
    storedBit (bytes.modify last (· &&& ((1#8 <<< rest) - 1))) i =
      (storedBit bytes i && (decide (i / 8 ≠ last) || decide (i % 8 < rest))) := by
  have hi : i % 8 < 8 := Nat.mod_lt i (by decide)
  rw [storedBit, storedBit, Array.getElem?_modify]
  by_cases hbyte : last = i / 8
  · rw [if_pos hbyte]
    cases bytes[i / 8]? with
    | none => simp
    | some byte =>
        rw [Option.map_some, Option.getD_some, Option.getD_some, BitVec.getLsbD_and,
          getLsbD_lowMask rest hrest _ hi]
        simp [hbyte]
  · simp [hbyte, Ne.symm hbyte]

theorem stores_replicate {length : Nat} (h : RoundsUp length) (value : Bool) :
    (replicate length value).Stores (List.replicate length value) := by
  have hlist (i : Nat) : (List.replicate length value)[i]?.getD false =
      (decide (i < length) && value) := by
    rw [List.getElem?_replicate]
    by_cases hi : i < length <;> simp [hi]
  have hrest : length % 8 < 8 := Nat.mod_lt length (by decide)
  refine ⟨?_, ?_, ?_⟩
  · rw [length_replicate, List.length_replicate]
  · rw [size_bytes_replicate, h.byteCount_eq, List.length_replicate]
  · intro i
    rw [hlist, replicate, h.byteCount_eq]
    split
    case isTrue hfull =>
        have hiff : i / 8 < (length + 7) / 8 ↔ i < length := by omega
        rw [storedBit_replicate]
        simp only [hiff]
    case isFalse hbegun =>
        -- The last byte is the one in which the length lies.
        have hlast : (length + 7) / 8 - 1 = length / 8 := by omega
        have hiff : i < length ↔
            i / 8 < (length + 7) / 8 ∧ (i / 8 ≠ length / 8 ∨ i % 8 < length % 8) := by omega
        rw [storedBit_modify_mask hrest, storedBit_replicate, Array.size_replicate, hlast]
        simp only [hiff, Bool.decide_and, Bool.decide_or]
        cases value <;> simp

/-! ### Changing a bitmap -/

theorem Stores.push {b : Bitmap} {bits : List Bool} (h : b.Stores bits) (value : Bool) :
    (b.push value).Stores (bits ++ [value]) := by
  have hsize : b.bytes.size = (b.length + 7) / 8 := h.length_eq ▸ h.size_bytes
  refine ⟨?_, ?_, ?_⟩
  · rw [length_push, h.length_eq, List.length_append, List.length_singleton]
  · rw [size_bytes_push, List.length_append, List.length_singleton, ← h.length_eq]
    split <;> omega
  · intro i
    -- A new byte starts out with no bit set, and only where the last one is full.
    have hbyte : b.length / 8 < (if b.length % 8 = 0 then b.bytes.push 0#8 else b.bytes).size := by
      split
      · rw [Array.size_push]
        omega
      · omega
    have hold : storedBit (if b.length % 8 = 0 then b.bytes.push 0#8 else b.bytes) i =
        storedBit b.bytes i := by
      split
      · exact storedBit_push_zero b.bytes i
      · rfl
    rw [Bitmap.push, storedBit_modify hbyte, hold, h.storedBit_eq, h.length_eq,
      List.getElem?_append]
    rcases Nat.lt_trichotomy i bits.length with hlt | rfl | hgt
    · rw [if_neg (Nat.ne_of_lt hlt), if_pos hlt]
    · simp
    · rw [if_neg (Nat.ne_of_gt hgt), if_neg (Nat.lt_asymm hgt),
        List.getElem?_eq_none (Nat.le_of_lt hgt), List.getElem?_eq_none]
      rw [List.length_singleton]
      omega

/-- Setting a bit of the list succeeds. -/
theorem Stores.set? {b : Bitmap} {bits : List Bool} (h : b.Stores bits) {i : Nat}
    (hi : i < bits.length) (value : Bool) :
    ∃ b', b.set? i value = some b' ∧ b'.Stores (bits.set i value) := by
  have hlength : i < b.length := h.length_eq.symm ▸ hi
  have hbyte : i / 8 < b.bytes.size := by
    rw [h.size_bytes]
    omega
  have hset : b.set? i value =
      some { b with bytes := b.bytes.modify (i / 8) (putBit · (i % 8) value) } :=
    if_pos ⟨hlength, hbyte⟩
  refine ⟨_, hset, ?_, ?_, ?_⟩
  · rw [List.length_set]
    exact h.length_eq
  · rw [List.length_set, Array.size_modify]
    exact h.size_bytes
  · intro j
    rw [storedBit_modify hbyte, h.storedBit_eq, List.getElem?_set]
    by_cases hj : j = i
    · simp [hj, hi]
    · rw [if_neg hj, if_neg (Ne.symm hj)]

/-! ### Whatever has been done -/

/-- How a bitmap is made and then changed. -/
inductive Recipe where
  /-- Bits of one value. -/
  | filled (value : Bool) (length : Nat)
  /-- The bits of an iterator. -/
  | collect (answers : Answers)
  | empty
  /-- One more bit. -/
  | push (r : Recipe) (value : Bool)
  /-- Another value for a bit. -/
  | set (r : Recipe) (i : Nat) (value : Bool)

namespace Recipe

/-- What the recipe makes of lists, if every bit that it sets exists. -/
def bits? : Recipe → Option (List Bool)
  | filled value length => some (List.replicate length value)
  | collect answers => some answers.bits
  | empty => some []
  | push r value => r.bits?.map (· ++ [value])
  | set r i value => r.bits?.bind fun bits =>
      if i < bits.length then some (bits.set i value) else none

/-- What the recipe makes of bitmaps. -/
def bitmap? : Recipe → Option Bitmap
  | filled value length => some (Bitmap.replicate length value)
  | collect answers => some (Bitmap.collect answers)
  | empty => some Bitmap.empty
  | push r value => r.bitmap?.map (·.push value)
  | set r i value => r.bitmap?.bind (·.set? i value)

/-- Bits are collected only from iterators that stay at their end. What another one gives after it
has said that it is at its end is in the bitmap too, but not where a list has it. -/
def IsFused : Recipe → Prop
  | collect answers => answers.IsFused
  | push r _ => r.IsFused
  | set r _ _ => r.IsFused
  | _ => True

instance decidableIsFused : DecidablePred IsFused
  | collect answers => inferInstanceAs (Decidable answers.IsFused)
  | push r _ => decidableIsFused r
  | set r _ _ => decidableIsFused r
  | filled _ _ => inferInstanceAs (Decidable True)
  | empty => inferInstanceAs (Decidable True)

/-- Whatever an iterator does, the bits of the bitmap have their bytes. No length on the way is
above that of the bitmap, so it is enough that this one can be rounded up. -/
theorem wellFormed {r : Recipe} {b : Bitmap} (h : r.bitmap? = some b) (hround : RoundsUp b.length) :
    b.WellFormed := by
  induction r generalizing b with
  | filled value length =>
      obtain rfl := Option.some.inj h
      rw [length_replicate] at hround
      exact wellFormed_replicate hround value
  | collect answers =>
      obtain rfl := Option.some.inj h
      exact wellFormed_collect answers
  | empty =>
      obtain rfl := Option.some.inj h
      exact wellFormed_empty
  | push r value ih =>
      obtain ⟨old, hold, rfl⟩ := Option.map_eq_some_iff.mp h
      exact (ih hold hround.of_succ).push value
  | set r i value ih =>
      obtain ⟨old, hold, hset⟩ := Option.bind_eq_some_iff.mp h
      rw [length_of_set? hset] at hround
      exact (ih hold hround).set? hset

/-- A recipe that works for lists makes a bitmap that stores the list. -/
theorem exists_stores {r : Recipe} {bits : List Bool} (h : r.bits? = some bits)
    (hfused : r.IsFused) (hround : RoundsUp bits.length) :
    ∃ b, r.bitmap? = some b ∧ b.Stores bits := by
  induction r generalizing bits with
  | filled value length =>
      obtain rfl := Option.some.inj h
      rw [List.length_replicate] at hround
      exact ⟨_, rfl, stores_replicate hround value⟩
  | collect answers =>
      obtain rfl := Option.some.inj h
      exact ⟨_, rfl, stores_collect hfused⟩
  | empty =>
      obtain rfl := Option.some.inj h
      exact ⟨_, rfl, stores_empty⟩
  | push r value ih =>
      obtain ⟨bits', hbits', rfl⟩ := Option.map_eq_some_iff.mp h
      rw [List.length_append, List.length_singleton] at hround
      obtain ⟨b, hb, hstores⟩ := ih hbits' hfused hround.of_succ
      refine ⟨b.push value, ?_, hstores.push value⟩
      rw [bitmap?, hb, Option.map_some]
  | set r i value ih =>
      obtain ⟨bits', hbits', hset⟩ := Option.bind_eq_some_iff.mp h
      split at hset
      case isTrue hi =>
          obtain rfl := Option.some.inj hset
          rw [List.length_set] at hround
          obtain ⟨b, hb, hstores⟩ := ih hbits' hfused hround
          obtain ⟨b', hb', hstores'⟩ := hstores.set? hi value
          refine ⟨b', ?_, hstores'⟩
          rw [bitmap?, hb, Option.bind_some, hb']
      case isFalse => exact absurd hset (by simp)

/-- A bitmap that a recipe makes stores the list that it makes: no bit has been set that the list
lacks. -/
theorem exists_bits {r : Recipe} {b : Bitmap} (h : r.bitmap? = some b) (hfused : r.IsFused)
    (hround : RoundsUp b.length) : ∃ bits, r.bits? = some bits ∧ b.Stores bits := by
  induction r generalizing b with
  | filled value length =>
      obtain rfl := Option.some.inj h
      rw [length_replicate] at hround
      exact ⟨_, rfl, stores_replicate hround value⟩
  | collect answers => exact ⟨_, rfl, Option.some.inj h ▸ stores_collect hfused⟩
  | empty => exact ⟨_, rfl, Option.some.inj h ▸ stores_empty⟩
  | push r value ih =>
      obtain ⟨old, hold, rfl⟩ := Option.map_eq_some_iff.mp h
      obtain ⟨bits, hbits, hstores⟩ := ih hold hfused hround.of_succ
      refine ⟨bits ++ [value], ?_, hstores.push value⟩
      rw [bits?, hbits, Option.map_some]
  | set r i value ih =>
      obtain ⟨old, hold, hset⟩ := Option.bind_eq_some_iff.mp h
      rw [length_of_set? hset] at hround
      obtain ⟨bits, hbits, hstores⟩ := ih hold hfused hround
      have hi : i < bits.length := hstores.length_eq ▸ (eq_of_set? hset).1
      obtain ⟨b', hset', hstores'⟩ := hstores.set? hi value
      obtain rfl : b' = b := Option.some.inj (hset'.symm.trans hset)
      refine ⟨bits.set i value, ?_, hstores'⟩
      rw [bits?, hbits, Option.bind_some, if_pos hi]

/-- The bits one by one. -/
def pushAll (r : Recipe) (bits : List Bool) : Recipe := bits.foldl push r

/-- The bits one by one over those from index `i` on. -/
def setAll : Recipe → Nat → List Bool → Recipe
  | r, _, [] => r
  | r, i, bit :: bits => setAll (r.set i bit) (i + 1) bits

theorem isFused_pushAll {r : Recipe} (h : r.IsFused) (bits : List Bool) :
    (r.pushAll bits).IsFused := by
  induction bits generalizing r with
  | nil => exact h
  | cons bit bits ih => exact ih (show (r.push bit).IsFused from h)

theorem isFused_setAll {r : Recipe} (h : r.IsFused) (i : Nat) (bits : List Bool) :
    (r.setAll i bits).IsFused := by
  induction bits generalizing r i with
  | nil => exact h
  | cons bit bits ih => exact ih (show (r.set i bit).IsFused from h) (i + 1)

theorem bits?_pushAll {r : Recipe} {old : List Bool} (h : r.bits? = some old) (bits : List Bool) :
    (r.pushAll bits).bits? = some (old ++ bits) := by
  induction bits generalizing r old with
  | nil =>
      rw [List.append_nil]
      exact h
  | cons bit bits ih =>
      have hpush : (r.push bit).bits? = some (old ++ [bit]) := by
        rw [bits?, h, Option.map_some]
      rw [List.append_cons]
      exact ih hpush

/-- What is before index `i` stays, and all of the rest is overwritten. -/
theorem bits?_setAll {r : Recipe} {before old bits : List Bool} (hlength : old.length = bits.length)
    (h : r.bits? = some (before ++ old)) :
    (r.setAll before.length bits).bits? = some (before ++ bits) := by
  induction bits generalizing r before old with
  | nil =>
      rw [List.length_eq_zero_iff.mp hlength] at h
      exact h
  | cons bit bits ih =>
      cases old with
      | nil => exact absurd hlength (by simp)
      | cons oldBit old =>
          have hset : (r.set before.length bit).bits? = some ((before ++ [bit]) ++ old) := by
            rw [bits?, h, Option.bind_some, if_pos (by simp)]
            simp
          have hrest := ih (Nat.succ.inj hlength) hset
          rw [List.length_append, ← List.append_cons] at hrest
          exact hrest

end Recipe

/-- The bitmap is a list of bits and nothing else: it has the bytes that the list takes, zero in all
places past the list, and reads as the list does. -/
structure IsExactly (b : Bitmap) (bits : List Bool) : Prop where
  length_eq : b.length = bits.length
  size_bytes : b.bytes.size = (bits.length + 7) / 8
  padding : ∀ (j : Nat) byte, b.bytes[j]? = some byte → ∀ k < 8, b.length ≤ 8 * j + k →
    byte.getLsbD k = false
  get?_eq : ∀ i : Nat, b.get? i = bits[i]?
  /-- The bitmap does not show how it came to its bits. -/
  eq_ofList : b = ofList bits

theorem Stores.isExactly {b : Bitmap} {bits : List Bool} (h : b.Stores bits) :
    b.IsExactly bits where
  length_eq := h.length_eq
  size_bytes := h.size_bytes
  padding := fun _ _ hj _ hk hpast => h.getLsbD_eq_false hj hk hpast
  get?_eq := h.get?_eq
  eq_ofList := h.unique (stores_ofList bits)

/-- Bitmaps are equal if they have the same bits. -/
theorem Stores.eq_iff {b b' : Bitmap} {bits bits' : List Bool} (h : b.Stores bits)
    (h' : b'.Stores bits') :
    b = b' ↔ b.length = b'.length ∧ ∀ i < b.length, b.get? i = b'.get? i := by
  constructor
  · intro heq
    subst heq
    exact ⟨rfl, fun _ _ => rfl⟩
  · intro hsame
    obtain ⟨hlength, hget⟩ := hsame
    have hbits : bits = bits' := by
      apply List.ext_getElem?
      intro i
      rw [← h.get?_eq, ← h'.get?_eq]
      by_cases hi : i < b.length
      · exact hget i hi
      · rw [get?, get?, if_neg hi, if_neg (hlength ▸ hi)]
    subst hbits
    exact h.unique h'

/-- However two bitmaps have been made and changed, each of them is exactly the list of bits that
the same operations make of lists, and they are equal exactly if they have the same bits. So bits
that are collected, pushed one by one, or written over others make one bitmap. The iterators stay at
their end, and the lengths can be rounded up to bytes. -/
theorem Recipe.exactly_bits {r r' : Recipe} {bits bits' : List Bool} (h : r.bits? = some bits)
    (h' : r'.bits? = some bits') (hfused : r.IsFused) (hfused' : r'.IsFused)
    (hround : RoundsUp bits.length) (hround' : RoundsUp bits'.length) :
    (∃ b b', r.bitmap? = some b ∧ r'.bitmap? = some b' ∧ b.IsExactly bits ∧ b'.IsExactly bits' ∧
      (b = b' ↔ b.length = b'.length ∧ ∀ i < b.length, b.get? i = b'.get? i)) ∧
    ∀ (xs : List Bool) (value : Bool), RoundsUp xs.length →
      (Recipe.empty.pushAll xs).bitmap? = some (Bitmap.ofList xs) ∧
      ((filled value xs.length).setAll 0 xs).bitmap? = some (Bitmap.ofList xs) := by
  obtain ⟨b, hb, hstores⟩ := exists_stores h hfused hround
  obtain ⟨b', hb', hstores'⟩ := exists_stores h' hfused' hround'
  refine ⟨⟨b, b', hb, hb', hstores.isExactly, hstores'.isExactly, hstores.eq_iff hstores'⟩, ?_⟩
  intro xs value hxs
  have hpushed : (Recipe.empty.pushAll xs).bits? = some ([] ++ xs) := bits?_pushAll rfl xs
  have hset : ((filled value xs.length).setAll ([] : List Bool).length xs).bits? =
      some ([] ++ xs) := bits?_setAll List.length_replicate rfl
  have hempty : Recipe.empty.IsFused := trivial
  have hfilled : (filled value xs.length).IsFused := trivial
  obtain ⟨p, hp, hpstores⟩ := exists_stores hpushed (isFused_pushAll hempty xs) hxs
  obtain ⟨s, hs, hsstores⟩ := exists_stores hset (isFused_setAll hfilled _ xs) hxs
  rw [hpstores.isExactly.eq_ofList] at hp
  rw [hsstores.isExactly.eq_ofList] at hs
  exact ⟨hp, hs⟩

/-- Nine ones, a zero pushed into the second byte and a bit of the first one cleared: the same as
the ten bits collected at once from an iterator that says twice that it is at its end. -/
theorem Recipe.exactly_bits_of_two_bytes :
    ∃ b, (((Recipe.filled true 9).push false).set 3 false).bitmap? = some b ∧
      (Recipe.collect ([true, true, true, false, true, true, true, true, true, false].map some ++
        [none, none])).bitmap? = some b ∧
      b.bytes.size = 2 ∧ b.get? 3 = some false ∧ b.get? 10 = none := by
  have hbits : (((filled true 9).push false).set 3 false).bits? =
      some [true, true, true, false, true, true, true, true, true, false] := rfl
  have hbits' : (collect ([true, true, true, false, true, true, true, true, true, false].map some ++
      [none, none])).bits? =
      some [true, true, true, false, true, true, true, true, true, false] := rfl
  obtain ⟨⟨b, b', hb, hb', hexact, hexact', -⟩, -⟩ :=
    exactly_bits hbits hbits' trivial (by decide) (by decide) (by decide)
  refine ⟨b, hb, ?_, hexact.size_bytes, ?_, ?_⟩
  · rw [hb', hexact.eq_ofList, hexact'.eq_ofList]
  · exact hexact.get?_eq 3
  · exact hexact.get?_eq 10

end GroupedExtrema.Bitmap
