import GroupedExtrema.Proofs.Slot
import GroupedExtrema.Proofs.StoreLists
import Mathlib.Data.List.Nodup

/-!
# Validity maps as sets of ordinals

A validity map is a set of ordinals: an ordinal is in it if it has been marked since the map was
last cleared and since its chunk was last added. A log that holds every call, with the numbers of
chunks before and after it, is all that has to be known about the calls (`MarkedIn`), failed growths
included.

Bit `n` of a map, counted through all words of all chunks, is the bit of slot `n`
(`HasLayout.getElem?_bits`). So a mark is a change of one element of the list of all bits, and the
bits that are set are as many as the ordinals in the set. There may be more slots than ordinals; no
bit of the surplus ever gets set.
-/

namespace GroupedExtrema

/-! ### Lists made of pieces of one length -/

section Pieces

variable {β γ : Type} {f : β → List γ} {k : Nat}

theorem length_flatMap_of_length {xs : List β} (h : ∀ x ∈ xs, (f x).length = k) :
    (xs.flatMap f).length = xs.length * k := by
  induction xs with
  | nil => simp
  | cons x xs ih =>
      obtain ⟨hx, hxs⟩ := List.forall_mem_cons.mp h
      rw [List.flatMap_cons, List.length_append, hx, ih hxs, List.length_cons, Nat.succ_mul,
        Nat.add_comm]

/-- An element is found in the piece that its index divided by the length of the pieces says. -/
theorem getElem?_flatMap_of_length (hk : 0 < k) {xs : List β}
    (h : ∀ x ∈ xs, (f x).length = k) (i : Nat) :
    (xs.flatMap f)[i]? = xs[i / k]?.bind fun x => (f x)[i % k]? := by
  induction xs generalizing i with
  | nil => simp
  | cons x xs ih =>
      obtain ⟨hx, hxs⟩ := List.forall_mem_cons.mp h
      rw [List.flatMap_cons, List.getElem?_append, hx]
      split
      case isTrue hlt =>
          rw [Nat.div_eq_of_lt hlt, Nat.mod_eq_of_lt hlt, List.getElem?_cons_zero,
            Option.bind_some]
      case isFalse hge =>
          have hle : k ≤ i := Nat.not_lt.mp hge
          rw [ih hxs, Nat.div_eq_sub_div hk hle, List.getElem?_cons_succ, Nat.mod_eq_sub_mod hle]

/-- As many elements of a list are true as there are indices of true elements. -/
theorem count_true_eq_length_filter_range (bits : List Bool) :
    bits.count true =
      ((List.range bits.length).filter fun i => bits[i]? = some true).length := by
  have hbits : (List.range bits.length).map (fun i => bits[i]?.getD false) = bits := by
    apply List.ext_getElem
    · simp
    · intro i hi hi'
      simp [hi']
  rw [← List.countP_eq_length_filter]
  calc bits.count true
      = ((List.range bits.length).map fun i => bits[i]?.getD false).count true := by rw [hbits]
    _ = (List.range bits.length).countP ((· == true) ∘ fun i => bits[i]?.getD false) :=
        List.countP_map
    _ = (List.range bits.length).countP fun i => bits[i]? = some true := by
        refine List.countP_congr fun i hi => ?_
        rw [List.mem_range] at hi
        simp [hi]

end Pieces

namespace ValidityMap

/-! ### Bits -/

/-- The bits of a word, lowest first. -/
def wordBits (w : SlotWord) : List Bool := (List.range 32).map w.getLsbD

theorem length_wordBits (w : SlotWord) : (wordBits w).length = 32 := by
  simp [wordBits]

theorem getElem?_wordBits (w : SlotWord) {i : Nat} (hi : i < 32) :
    (wordBits w)[i]? = some (w.getLsbD i) := by
  rw [wordBits, List.getElem?_map, List.getElem?_range hi, Option.map_some]

/-- All bits of a map, through the words of every chunk. -/
def bits (m : ValidityMap) : List Bool :=
  m.words.chunks.toList.flatMap fun c => c.toList.flatMap wordBits

/-- The chunks of the map are those of a layout. -/
structure HasLayout (l : ChunkLayout) (m : ValidityMap) : Prop where
  wellFormed : m.words.WellFormed
  length_eq : m.words.chunkLength = l.wordsPerChunk

namespace HasLayout

variable {l : ChunkLayout} {m : ValidityMap}

theorem length_chunkBits (h : m.HasLayout l) :
    ∀ c ∈ m.words.chunks.toList, (c.toList.flatMap wordBits).length = l.capacity := by
  intro c hc
  have hsize := h.wellFormed.size_of_mem c (Array.mem_toList_iff.mp hc)
  rw [length_flatMap_of_length fun w _ => length_wordBits w, Array.length_toList, hsize,
    h.length_eq, Nat.mul_comm, l.mul_wordsPerChunk]

theorem length_bits (h : m.HasLayout l) : m.bits.length = m.size * l.capacity :=
  length_flatMap_of_length h.length_chunkBits

/-- Counted through all words of all chunks, bit `n` is the bit of slot `n`. -/
theorem getElem?_bits (h : m.HasLayout l) (n : Nat) : m.bits[n]? = m.isValid? (l.slot n) := by
  have hword (w : SlotWord) := getElem?_wordBits w (Nat.mod_lt (n % l.capacity) (by decide))
  rw [bits, getElem?_flatMap_of_length l.capacity_pos h.length_chunkBits, isValid?,
    ChunkStore.get?_eq_bind, SlotAddress.word_eq_div, SlotAddress.bit_eq_mod, Array.getElem?_toList]
  show _ = (m.words.chunks[n / l.capacity]?.bind (·[n % l.capacity / 32]?)).map
    (·.getLsbD (n % l.capacity % 32))
  cases m.words.chunks[n / l.capacity]? with
  | none => rfl
  | some c =>
      rw [Option.bind_some, Option.bind_some,
        getElem?_flatMap_of_length (by decide) fun w _ => length_wordBits w, Array.getElem?_toList]
      simp only [hword]
      exact Option.map_eq_bind.symm

/-- The slots of chunks that exist have bits, and no others have. -/
theorem isSome_isValid?_iff (h : m.HasLayout l) (n : Nat) :
    (m.isValid? (l.slot n)).isSome ↔ (l.slot n).chunk < m.size := by
  have hword : (l.slot n).word < m.words.chunkLength :=
    h.length_eq.symm ▸ SlotAddress.word_lt (l.slot_offset_lt n)
  rw [isValid?, Option.isSome_map, h.wellFormed.isSome_get?_iff, and_iff_left hword]
  exact Iff.rfl

theorem lt_length_bits_iff (h : m.HasLayout l) (n : Nat) :
    n < m.bits.length ↔ (l.slot n).chunk < m.size := by
  rw [← h.isSome_isValid?_iff, ← h.getElem?_bits, Option.isSome_iff_exists]
  refine ⟨fun hn => ⟨_, List.getElem?_eq_getElem hn⟩, ?_⟩
  rintro ⟨bit, hbit⟩
  exact (List.getElem?_eq_some_iff.mp hbit).1

/-! ### Operations -/

theorem empty (l : ChunkLayout) : (empty l).HasLayout l := ⟨ChunkStore.wellFormed_empty _ _, rfl⟩

/-- Growing adds some chunks without a valid slot, whether it succeeds or not. -/
theorem exists_grow (m : ValidityMap) (b : Budget) (chunks : Nat) :
    ∃ n, (m.grow b chunks).2.1 = ⟨m.words.extend n 0⟩ := by
  obtain ⟨n, -, result, hgrow, -⟩ := m.words.grow_eq b chunks 0
  refine ⟨n, ?_⟩
  rw [grow, hgrow]

/-- Old slots keep their bits, and those of new ones are not set. -/
theorem isValid?_extend (h : m.HasLayout l) (k n : Nat) :
    isValid? ⟨m.words.extend k 0⟩ (l.slot n) =
      if (l.slot n).chunk < m.size then m.isValid? (l.slot n)
      else if (l.slot n).chunk < m.size + k then some false else none := by
  have hword : (l.slot n).word < m.words.chunkLength :=
    h.length_eq.symm ▸ SlotAddress.word_lt (l.slot_offset_lt n)
  simp only [isValid?, ChunkStore.get?_extend, hword, and_true, show m.words.size = m.size from rfl]
  split
  case isTrue => rfl
  case isFalse =>
      split
      case isTrue => simp
      case isFalse => rfl

/-- Where a slot exists, marking it is an update of its word. -/
theorem mark?_eq (h : m.HasLayout l) {n : Nat} (hn : (l.slot n).chunk < m.size) (valid : Bool) :
    m.mark? (l.slot n) valid = some ⟨m.words.update (l.slot n).chunk (l.slot n).word
      (· ||| SlotWord.ofBit valid <<< (l.slot n).bit)⟩ := by
  have hword : (l.slot n).word < m.words.chunkLength :=
    h.length_eq.symm ▸ SlotAddress.word_lt (l.slot_offset_lt n)
  rw [mark?, h.wellFormed.modify?_eq hn hword, Option.map_some]

/-- Elsewhere it fails. -/
theorem mark?_eq_none (h : m.HasLayout l) {n : Nat} (hn : m.size ≤ (l.slot n).chunk)
    (valid : Bool) : m.mark? (l.slot n) valid = none := by
  have hout : ¬ m.words.inRange (l.slot n).chunk (l.slot n).word = true := fun hin =>
    Nat.not_lt.mpr hn (h.wellFormed.isSome_get?_iff.mp hin).1
  rw [mark?, ChunkStore.modify?, if_neg hout, Option.map_none]

/-- Of all bits, marking a slot that exists changes at most its own, which it sets. -/
theorem exists_mark? (h : m.HasLayout l) {n : Nat} (hn : (l.slot n).chunk < m.size)
    (valid : Bool) :
    ∃ m', m.mark? (l.slot n) valid = some m' ∧ m'.HasLayout l ∧ m'.size = m.size ∧
      m'.bits = if valid then m.bits.set n true else m.bits := by
  have hlayout : HasLayout l ⟨m.words.update (l.slot n).chunk (l.slot n).word
      (· ||| SlotWord.ofBit valid <<< (l.slot n).bit)⟩ :=
    ⟨h.wellFormed.update _ _ _, h.length_eq⟩
  refine ⟨_, h.mark?_eq hn valid, hlayout, m.words.size_update _ _ _, ?_⟩
  have hbit := (h.lt_length_bits_iff n).mpr hn
  apply List.ext_getElem?
  intro i
  rw [hlayout.getElem?_bits, isValid?_update, ← h.getElem?_bits]
  cases valid with
  | false => simp
  | true =>
      rw [if_pos rfl, List.getElem?_set]
      by_cases hi : n = i
      · subst hi
        simp [hbit]
      · simp [hi, Ne.symm hi]

end HasLayout

/-! ### Calls and their log -/

/-- One operation on a map. Whoever shares the memory may have taken any part of the budget before
the call. -/
inductive Call where
  /-- Grows to at least so many chunks, as far as that goes. -/
  | grow (budget : Budget) (chunks : Nat)
  /-- Drops the chunks from an index on. -/
  | truncate (budget : Budget) (chunks : Nat)
  /-- Marks the slot of an ordinal. Nothing happens if it does not exist. -/
  | mark (ordinal : UInt32) (valid : Bool)
  /-- Clears every bit. -/
  | clear

/-- A call with the numbers of chunks before and after it. -/
structure Record where
  call : Call
  before : Nat
  after : Nat

/-- Performs one operation. -/
def perform (l : ChunkLayout) (m : ValidityMap) : Call → ValidityMap
  | .grow budget chunks => (m.grow budget chunks).2.1
  | .truncate budget chunks => (m.truncate budget chunks).1
  | .mark ordinal valid => (m.mark? (l.address ordinal) valid).getD m
  | .clear => m.clear

/-- The call has cleared the bits of a chunk, or it has added the chunk. -/
def Record.Forgets (r : Record) (chunk : Nat) : Prop :=
  r.call = .clear ∨ r.before ≤ chunk ∧ chunk < r.after

/-- The ordinal has been marked, and since then neither has the map been cleared nor the chunk of
the ordinal been added. The log begins with the last call. -/
def MarkedIn (l : ChunkLayout) (log : List Record) (o : UInt32) : Prop :=
  ∃ later r earlier, log = later ++ r :: earlier ∧ r.call = .mark o true ∧
    ∀ r' ∈ later, ¬ r'.Forgets (l.address o).chunk

/-- An ordinal is marked by the last call, or it has been marked before that and is not forgotten
by it. -/
theorem markedIn_cons_iff {l : ChunkLayout} {log : List Record} {r : Record} {o : UInt32} :
    MarkedIn l (r :: log) o ↔
      r.call = .mark o true ∨ ¬ r.Forgets (l.address o).chunk ∧ MarkedIn l log o := by
  constructor
  · rintro ⟨later, r', earlier, heq, hmark, hkept⟩
    cases later with
    | nil =>
        obtain ⟨rfl, rfl⟩ := List.cons.inj heq
        exact Or.inl hmark
    | cons last later =>
        obtain ⟨rfl, rfl⟩ := List.cons.inj heq
        obtain ⟨hlast, hkept⟩ := List.forall_mem_cons.mp hkept
        exact Or.inr ⟨hlast, later, r', earlier, rfl, hmark, hkept⟩
  · rintro (hmark | ⟨hlast, later, r', earlier, rfl, hmark, hkept⟩)
    · exact ⟨[], r, log, rfl, hmark, fun r' hr' => absurd hr' List.not_mem_nil⟩
    · exact ⟨r :: later, r', earlier, rfl, hmark, List.forall_mem_cons.mpr ⟨hlast, hkept⟩⟩

/-- The same of the ordinal whose slot has a number, if there is one. -/
def SlotMarkedIn (l : ChunkLayout) (log : List Record) (n : Nat) : Prop :=
  ∃ o : UInt32, o.toNat = n ∧ MarkedIn l log o

theorem slotMarkedIn_toNat {l : ChunkLayout} {log : List Record} {o : UInt32} :
    SlotMarkedIn l log o.toNat ↔ MarkedIn l log o := by
  constructor
  · rintro ⟨o', heq, hmarked⟩
    exact UInt32.toNat_inj.mp heq ▸ hmarked
  · intro hmarked
    exact ⟨o, rfl, hmarked⟩

theorem slotMarkedIn_cons_iff {l : ChunkLayout} {log : List Record} {r : Record} {n : Nat} :
    SlotMarkedIn l (r :: log) n ↔ (∃ o : UInt32, o.toNat = n ∧ r.call = .mark o true) ∨
      ¬ r.Forgets (l.slot n).chunk ∧ SlotMarkedIn l log n := by
  unfold SlotMarkedIn
  simp only [markedIn_cons_iff, ChunkLayout.address_eq_slot]
  constructor
  · rintro ⟨o, rfl, hmark | ⟨hkept, hmarked⟩⟩
    · exact Or.inl ⟨o, rfl, hmark⟩
    · exact Or.inr ⟨hkept, o, rfl, hmarked⟩
  · rintro (⟨o, rfl, hmark⟩ | ⟨hkept, o, rfl, hmarked⟩)
    · exact ⟨o, rfl, Or.inl hmark⟩
    · exact ⟨o, rfl, Or.inr ⟨hkept, hmarked⟩⟩

/-- A call that marks no slot leaves a slot marked unless it forgets its chunk. -/
theorem slotMarkedIn_cons_iff_of_ne {l : ChunkLayout} {log : List Record} {r : Record} {n : Nat}
    (h : ∀ o : UInt32, o.toNat = n → r.call ≠ .mark o true) :
    SlotMarkedIn l (r :: log) n ↔ ¬ r.Forgets (l.slot n).chunk ∧ SlotMarkedIn l log n := by
  rw [slotMarkedIn_cons_iff, or_iff_right]
  rintro ⟨o, ho, hmark⟩
  exact h o ho hmark

/-! ### Every call keeps the set -/

/-- The bits of the map that are set are those of the marked slots. -/
structure Tracks (l : ChunkLayout) (log : List Record) (m : ValidityMap) : Prop extends
    HasLayout l m where
  isValid?_iff : ∀ n, (l.slot n).chunk < m.size →
    (m.isValid? (l.slot n) = some true ↔ SlotMarkedIn l log n)

namespace Tracks

variable {l : ChunkLayout} {log : List Record} {m : ValidityMap}

theorem empty (l : ChunkLayout) : (ValidityMap.empty l).Tracks l [] where
  toHasLayout := HasLayout.empty l
  isValid?_iff := fun _ hn => absurd hn (Nat.not_lt_zero _)

theorem grow (h : m.Tracks l log) (b : Budget) (chunks : Nat) :
    (m.grow b chunks).2.1.Tracks l
      (⟨.grow b chunks, m.size, (m.grow b chunks).2.1.size⟩ :: log) := by
  obtain ⟨k, hk⟩ := HasLayout.exists_grow m b chunks
  have hsize : (m.grow b chunks).2.1.size = m.size + k := by
    rw [hk]
    exact m.words.size_extend k 0
  rw [hsize, hk]
  refine ⟨⟨h.wellFormed.extend k 0, h.length_eq⟩, ?_⟩
  intro n hn
  have hn : (l.slot n).chunk < m.size + k := m.words.size_extend k 0 ▸ hn
  rw [slotMarkedIn_cons_iff_of_ne (by simp), h.isValid?_extend]
  by_cases hold : (l.slot n).chunk < m.size
  · have hkept : ¬ Record.Forgets ⟨.grow b chunks, m.size, m.size + k⟩ (l.slot n).chunk := by
      simp only [Record.Forgets, reduceCtorEq, false_or]
      omega
    rw [if_pos hold, and_iff_right hkept]
    exact h.isValid?_iff n hold
  · have hforgets : Record.Forgets ⟨.grow b chunks, m.size, m.size + k⟩ (l.slot n).chunk :=
      Or.inr ⟨Nat.not_lt.mp hold, hn⟩
    rw [if_neg hold, if_pos hn]
    exact iff_of_false (by simp) fun hmarked => hmarked.1 hforgets

theorem truncate (h : m.Tracks l log) (b : Budget) (chunks : Nat) :
    (m.truncate b chunks).1.Tracks l
      (⟨.truncate b chunks, m.size, (m.truncate b chunks).1.size⟩ :: log) := by
  refine ⟨⟨h.wellFormed.truncate b chunks, h.length_eq⟩, ?_⟩
  intro n hn
  have hsize : (m.truncate b chunks).1.size = min chunks m.size := m.words.size_truncate b chunks
  rw [hsize] at hn ⊢
  have hkept : ¬ Record.Forgets ⟨.truncate b chunks, m.size, min chunks m.size⟩
      (l.slot n).chunk := by
    simp only [Record.Forgets, reduceCtorEq, false_or]
    omega
  have hget := m.words.get?_truncate b chunks (show (l.slot n).chunk < chunks by omega)
    (l.slot n).word
  rw [slotMarkedIn_cons_iff_of_ne (by simp), and_iff_right hkept,
    ← h.isValid?_iff n (show (l.slot n).chunk < m.size by omega)]
  exact iff_of_eq (congrArg (Option.map _ · = some true) hget)

/-- A call that keeps the number of chunks and does not clear forgets nothing. -/
theorem not_forgets_mark (o : UInt32) (valid : Bool) (size chunk : Nat) :
    ¬ Record.Forgets ⟨.mark o valid, size, size⟩ chunk := by
  simp only [Record.Forgets, reduceCtorEq, false_or]
  omega

theorem mark (h : m.Tracks l log) (o : UInt32) (valid : Bool) :
    (m.perform l (.mark o valid)).Tracks l
      (⟨.mark o valid, m.size, (m.perform l (.mark o valid)).size⟩ :: log) := by
  rw [perform, ChunkLayout.address_eq_slot]
  rcases Nat.lt_or_ge (l.slot o.toNat).chunk m.size with ho | ho
  · obtain ⟨m', hm', hlayout, hsize, hbits⟩ := h.exists_mark? ho valid
    rw [hm', Option.getD_some, hsize]
    refine ⟨hlayout, ?_⟩
    intro n hn
    rw [hsize] at hn
    have hold := h.isValid?_iff n hn
    rw [← h.getElem?_bits] at hold
    rw [slotMarkedIn_cons_iff, and_iff_right (not_forgets_mark o valid m.size _), ← hold,
      ← hlayout.getElem?_bits, hbits]
    cases valid with
    | false => simp
    | true =>
        rw [if_pos rfl, List.getElem?_set]
        by_cases hne : o.toNat = n
        · have hbit := (h.lt_length_bits_iff n).mpr hn
          rw [if_pos hne, if_pos (hne.symm ▸ hbit)]
          exact iff_of_true rfl (Or.inl ⟨o, hne, rfl⟩)
        · rw [if_neg hne, or_iff_right]
          rintro ⟨o', rfl, heq⟩
          obtain ⟨rfl, -⟩ := Call.mark.inj heq
          exact hne rfl
  · -- The slot does not exist, and its chunk will be new before it can be looked at.
    rw [h.mark?_eq_none ho valid, Option.getD_none]
    refine ⟨h.toHasLayout, ?_⟩
    intro n hn
    have hne : ∀ o' : UInt32, o'.toNat = n → Call.mark o valid ≠ .mark o' true := by
      rintro o' rfl heq
      obtain ⟨rfl, -⟩ := Call.mark.inj heq
      exact Nat.not_lt.mpr ho hn
    rw [slotMarkedIn_cons_iff_of_ne hne, and_iff_right (not_forgets_mark o valid m.size _)]
    exact h.isValid?_iff n hn

theorem clear (h : m.Tracks l log) :
    m.clear.Tracks l (⟨.clear, m.size, m.clear.size⟩ :: log) := by
  refine ⟨⟨h.wellFormed.fill 0, h.length_eq⟩, ?_⟩
  intro n hn
  have hforgets : Record.Forgets ⟨.clear, m.size, m.clear.size⟩ (l.slot n).chunk := Or.inl rfl
  rw [slotMarkedIn_cons_iff_of_ne (by simp)]
  refine iff_of_false ?_ fun hmarked => hmarked.1 hforgets
  rw [isValid?, ValidityMap.clear, ChunkStore.get?_fill]
  cases m.words.get? (l.slot n).chunk (l.slot n).word <;> simp

/-- Every call keeps the set. -/
theorem perform (h : m.Tracks l log) (c : Call) :
    (m.perform l c).Tracks l (⟨c, m.size, (m.perform l c).size⟩ :: log) := by
  cases c with
  | grow budget chunks => exact h.grow budget chunks
  | truncate budget chunks => exact h.truncate budget chunks
  | mark o valid => exact h.mark o valid
  | clear => exact h.clear

theorem isValid?_eq (h : m.Tracks l log) (o : UInt32) (ho : (l.address o).chunk < m.size) :
    ∃ valid, m.isValid? (l.address o) = some valid ∧ (valid = true ↔ MarkedIn l log o) := by
  rw [ChunkLayout.address_eq_slot] at ho ⊢
  obtain ⟨valid, hvalid⟩ := Option.isSome_iff_exists.mp ((h.isSome_isValid?_iff o.toNat).mpr ho)
  refine ⟨valid, hvalid, ?_⟩
  have hiff := h.isValid?_iff o.toNat ho
  rwa [hvalid, Option.some.injEq, slotMarkedIn_toNat] at hiff

/-- The bits that are set are as many as the ordinals that have been marked. -/
theorem exists_ordinals (h : m.Tracks l log) :
    ∃ ordinals : List UInt32, ordinals.Nodup ∧
      (∀ o, o ∈ ordinals ↔ (l.address o).chunk < m.size ∧ MarkedIn l log o) ∧
      m.bits.count true = ordinals.length := by
  have hset (n : Nat) : n ∈ (List.range m.bits.length).filter (fun n => m.bits[n]? = some true) ↔
      (l.slot n).chunk < m.size ∧ SlotMarkedIn l log n := by
    rw [List.mem_filter, List.mem_range, decide_eq_true_iff, h.lt_length_bits_iff,
      h.getElem?_bits]
    exact and_congr_right fun hn => h.isValid?_iff n hn
  refine ⟨((List.range m.bits.length).filter fun n => m.bits[n]? = some true).map UInt32.ofNat,
    ?_, ?_, ?_⟩
  · refine List.Nodup.map_on ?_ (List.nodup_range.filter _)
    intro n hn n' hn' heq
    -- Both are numbers of ordinals, and different ordinals have different numbers.
    obtain ⟨o, rfl, -⟩ := ((hset n).mp hn).2
    obtain ⟨o', rfl, -⟩ := ((hset n').mp hn').2
    rw [UInt32.ofNat_toNat, UInt32.ofNat_toNat] at heq
    rw [heq]
  · intro o
    rw [ChunkLayout.address_eq_slot, ← slotMarkedIn_toNat, ← hset, List.mem_map]
    constructor
    · rintro ⟨n, hn, rfl⟩
      obtain ⟨o, rfl, -⟩ := ((hset n).mp hn).2
      rwa [UInt32.ofNat_toNat]
    · intro ho
      exact ⟨o.toNat, ho, UInt32.ofNat_toNat⟩
  · rw [List.length_map, count_true_eq_length_filter_range]

end Tracks

/-! ### Runs -/

/-- A map with the log of the calls on it. -/
structure Logged where
  map : ValidityMap
  log : List Record

namespace Logged

/-- A map without chunks, on which nothing has been called. -/
def new (l : ChunkLayout) : Logged := ⟨.empty l, []⟩

/-- Performs one operation and notes it. -/
def step (l : ChunkLayout) (s : Logged) (c : Call) : Logged where
  map := s.map.perform l c
  log := ⟨c, s.map.size, (s.map.perform l c).size⟩ :: s.log

/-- Performs operations one after the other, whether they fail or not. -/
def run (l : ChunkLayout) (s : Logged) (calls : List Call) : Logged := calls.foldl (step l) s

theorem tracks_run {l : ChunkLayout} {s : Logged} (h : s.map.Tracks l s.log) (calls : List Call) :
    (s.run l calls).map.Tracks l (s.run l calls).log := by
  induction calls generalizing s with
  | nil => exact h
  | cons c cs ih => exact ih (h.perform c)

end Logged

/-- The map is the set of the ordinals that its log says have been marked. -/
structure IsOrdinalSet (l : ChunkLayout) (log : List Record) (m : ValidityMap) : Prop where
  length_bits : m.bits.length = m.size * l.capacity
  /-- Reading an ordinal is reading the bit with its number. -/
  isValid?_eq_bits : ∀ o, m.isValid? (l.address o) = m.bits[o.toNat]?
  /-- An ordinal whose chunk exists is in the set if and only if it has been marked. -/
  isValid?_eq : ∀ o, (l.address o).chunk < m.size →
    ∃ valid, m.isValid? (l.address o) = some valid ∧ (valid = true ↔ MarkedIn l log o)
  /-- Marking an ordinal whose chunk exists sets its own bit, if it is marked valid, and leaves all
  others as they are. -/
  mark?_eq : ∀ o, (l.address o).chunk < m.size → ∀ valid,
    ∃ m', m.mark? (l.address o) valid = some m' ∧ m'.size = m.size ∧
      m'.bits = if valid then m.bits.set o.toNat true else m.bits
  /-- As many bits are set as there are ordinals in the set. -/
  count_bits : ∃ ordinals : List UInt32, ordinals.Nodup ∧
    (∀ o, o ∈ ordinals ↔ (l.address o).chunk < m.size ∧ MarkedIn l log o) ∧
    m.bits.count true = ordinals.length
  /-- An ordinal whose chunk does not exist can be neither read nor marked. -/
  of_unallocated : ∀ o, m.size ≤ (l.address o).chunk →
    m.isValid? (l.address o) = none ∧ ∀ valid, m.mark? (l.address o) valid = none ∧
      m.perform l (.mark o valid) = m

theorem Tracks.isOrdinalSet {l : ChunkLayout} {log : List Record} {m : ValidityMap}
    (h : m.Tracks l log) : m.IsOrdinalSet l log where
  length_bits := h.length_bits
  isValid?_eq_bits := by
    intro o
    rw [ChunkLayout.address_eq_slot, h.getElem?_bits]
  isValid?_eq := h.isValid?_eq
  mark?_eq := by
    intro o ho valid
    rw [ChunkLayout.address_eq_slot] at ho ⊢
    obtain ⟨m', hm', -, hsize, hbits⟩ := h.exists_mark? ho valid
    exact ⟨m', hm', hsize, hbits⟩
  count_bits := h.exists_ordinals
  of_unallocated := by
    intro o ho
    rw [ChunkLayout.address_eq_slot] at ho ⊢
    have hnone := h.mark?_eq_none ho
    refine ⟨?_, fun valid => ⟨hnone valid, ?_⟩⟩
    · rw [← Option.not_isSome_iff_eq_none, h.isSome_isValid?_iff]
      exact Nat.not_lt.mpr ho
    · rw [ValidityMap.perform, ChunkLayout.address_eq_slot, hnone, Option.getD_none]

/-- After any calls, in whatever order and whatever fails of them, a map is the set of the ordinals
that have been marked since they were last forgotten. -/
theorem isOrdinalSet_run (l : ChunkLayout) (calls : List Call) :
    ((Logged.new l).run l calls).map.IsOrdinalSet l ((Logged.new l).run l calls).log :=
  (Logged.tracks_run (Tracks.empty l) calls).isOrdinalSet

/-- Of two marks one is in a chunk that is dropped and added again. Marking the other ordinal as not
valid keeps it in the set. -/
example : ((Logged.new ⟨5, by decide, by decide⟩).run ⟨5, by decide, by decide⟩
    [.grow (.ofLimit none) 2, .mark 3 true, .mark 40 true, .truncate (.ofLimit none) 1,
      .grow (.ofLimit none) 2, .mark 3 false]).map.bits.count true = 1 := by
  decide

end ValidityMap

end GroupedExtrema
