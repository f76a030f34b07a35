import GroupedExtrema.Proofs.Accounting
import Mathlib.Data.List.Basic
import Mathlib.Data.Nat.Find

/-!
# Stores as lists of lists

A store is a list of chunks and a chunk a list of elements (`ChunkStore.lists`). On lists, every
operation is a plain one: growing appends, truncating takes, filling maps, and writing sets.

How much a store grows depends on the budget as well. It is not all or nothing here, as it is for
tables: the chunks before the one that failed stay. There are as many of them as the budget affords
(`Budget.admitted`), unless no chunk can be had at all, because it or the list of chunks is larger
than an allocation may be (`ChunkStore.growth`).
-/

namespace GroupedExtrema

namespace Budget

instance (b : Budget) : DecidablePred b.Affords :=
  fun bytes => inferInstanceAs (Decidable (b.reserved + bytes ≤ b.ceiling))

@[simp] theorem reserved_charge (b : Budget) (bytes : Nat) :
    (b.charge bytes).reserved = b.reserved + bytes := rfl

/-- What has been reserved has been charged. -/
theorem exists_eq_charge {b : Budget} {bytes : Nat} (h : bytes ≤ b.reserved) :
    ∃ b' : Budget, b = b'.charge bytes := by
  refine ⟨{ b with reserved := b.reserved - bytes }, ?_⟩
  rw [charge, Nat.sub_add_cancel h]

/-- The largest number of chunks, of so many at most, that a budget has room for. -/
def admitted (b : Budget) (chunkBytes atMost : Nat) : Nat :=
  Nat.findGreatest (fun n => b.Affords (n * chunkBytes)) atMost

variable {b : Budget} {chunkBytes n : Nat}

theorem admitted_le (b : Budget) (chunkBytes n : Nat) : b.admitted chunkBytes n ≤ n :=
  Nat.findGreatest_le n

theorem affords_admitted (h : b.reserved ≤ b.ceiling) (chunkBytes n : Nat) :
    b.Affords (b.admitted chunkBytes n * chunkBytes) := by
  have hzero : b.Affords (0 * chunkBytes) := by
    rw [Nat.zero_mul]
    exact h
  exact Nat.findGreatest_spec (P := fun n => b.Affords (n * chunkBytes)) (Nat.zero_le n) hzero

theorem le_admitted {m : Nat} (hm : m ≤ n) (h : b.Affords (m * chunkBytes)) :
    m ≤ b.admitted chunkBytes n :=
  Nat.le_findGreatest hm h

/-- The first chunk is admitted if it is afforded, and then further ones in what it leaves. -/
theorem admitted_succ (b : Budget) (chunkBytes n : Nat) :
    b.admitted chunkBytes (n + 1) =
      if b.Affords chunkBytes then (b.charge chunkBytes).admitted chunkBytes n + 1 else 0 := by
  have hcharge (m : Nat) :
      (b.charge chunkBytes).Affords (m * chunkBytes) ↔ b.Affords ((m + 1) * chunkBytes) := by
    rw [affords_charge, Nat.succ_mul, Nat.add_comm]
  split
  case isTrue hone =>
      have hnow : b.reserved ≤ b.ceiling := Nat.le_trans (Nat.le_add_right _ _) hone
      apply Nat.le_antisymm
      · have hle := b.admitted_le chunkBytes (n + 1)
        have haffords := affords_admitted hnow chunkBytes (n + 1)
        cases hm : b.admitted chunkBytes (n + 1) with
        | zero => exact Nat.zero_le _
        | succ m =>
            rw [hm] at hle haffords
            exact Nat.succ_le_succ
              (le_admitted (Nat.le_of_succ_le_succ hle) ((hcharge m).mpr haffords))
      · have hrest := affords_admitted (b := b.charge chunkBytes) hone chunkBytes n
        exact le_admitted (Nat.succ_le_succ (admitted_le _ _ n)) ((hcharge _).mp hrest)
  case isFalse hone =>
      rw [admitted, Nat.findGreatest_eq_zero_iff]
      intro m hpos _ haffords
      exact hone (haffords.mono (Nat.le_mul_of_pos_left chunkBytes hpos))

end Budget

namespace ChunkStore

variable {α : Type} {s : ChunkStore α} {b : Budget}

/-! ### The lists of a store -/

/-- The elements of a store, chunk by chunk. -/
def lists (s : ChunkStore α) : List (List α) := s.chunks.toList.map Array.toList

@[simp] theorem length_lists (s : ChunkStore α) : s.lists.length = s.size :=
  List.length_map ..

theorem lists_extend (s : ChunkStore α) (n : Nat) (fill : α) :
    (s.extend n fill).lists = s.lists ++ List.replicate n (List.replicate s.chunkLength fill) := by
  simp [lists, extend]

theorem lists_fill (s : ChunkStore α) (value : α) :
    (s.fill value).lists = s.lists.map (·.map fun _ => value) := by
  simp [lists, fill]

theorem lists_truncate (s : ChunkStore α) (b : Budget) (n : Nat) :
    (s.truncate b n).1.lists = s.lists.take n := by
  simp [lists, truncate]

theorem lists_update (s : ChunkStore α) (chunk offset : Nat) (f : α → α) :
    (s.update chunk offset f).lists = s.lists.modify chunk (·.modify offset f) := by
  apply List.ext_getElem?
  intro c
  simp only [lists, update, List.getElem?_map, List.getElem?_modify, Array.getElem?_toList,
    Array.getElem?_modify]
  split <;> simp [Function.comp_def]

/-- Where there is no element, updating changes nothing. -/
theorem update_of_not_inRange {chunk offset : Nat} (h : s.inRange chunk offset = false)
    (f : α → α) : s.update chunk offset f = s := by
  have hself {β : Type} {xs : Array β} {i : Nat} {g : β → β} (hi : ∀ x, xs[i]? = some x → g x = x) :
      xs.modify i g = xs := by
    apply Array.ext_getElem?
    intro j
    rw [Array.getElem?_modify]
    split
    case isTrue hij =>
        subst hij
        cases hx : xs[i]? with
        | none => rfl
        | some x => rw [Option.map_some, hi x hx]
    case isFalse => rfl
  have hchunks : s.chunks.modify chunk (·.modify offset f) = s.chunks := by
    apply hself
    intro elements helements
    apply hself
    intro x hx
    have hget : s.get? chunk offset = some x := by
      rw [get?_eq_bind, helements]
      exact hx
    rw [inRange, hget] at h
    exact absurd h (by simp)
  exact congrArg (fun chunks => { s with chunks := chunks }) hchunks

theorem getD_set? (s : ChunkStore α) (chunk offset : Nat) (value : α) :
    (s.set? chunk offset value).getD s = s.update chunk offset fun _ => value := by
  unfold set? modify?
  split
  case isTrue => rfl
  case isFalse hout => rw [update_of_not_inRange (Bool.eq_false_iff.mpr hout), Option.getD_none]

theorem lists_set? (s : ChunkStore α) (chunk offset : Nat) (value : α) :
    ((s.set? chunk offset value).getD s).lists = s.lists.modify chunk (·.set offset value) := by
  rw [getD_set?, lists_update]
  congr 1
  funext elements
  exact (List.set_eq_modify value offset elements).symm

/-! ### Growing as far as possible -/

/-- How many chunks a store of some size adds when it is to grow: none if it has them already, or if
a chunk or the list of them is too large; otherwise as many as the budget admits. -/
def growth (b : Budget) (chunkBytes size chunks : Nat) : Nat :=
  if chunks * chunkEntryBytes ≤ maxAllocation ∧ chunkBytes ≤ maxAllocation then
    b.admitted chunkBytes (chunks - size)
  else 0

theorem affords_growth (h : b.reserved ≤ b.ceiling) (chunkBytes size chunks : Nat) :
    b.Affords (growth b chunkBytes size chunks * chunkBytes) := by
  unfold growth
  split
  · exact Budget.affords_admitted h _ _
  · rw [Nat.zero_mul]
    exact h

theorem addChunks_eq_admitted (h : s.chunkBytes ≤ maxAllocation) (n : Nat) (b : Budget) (fill : α) :
    ∃ result, addChunks n s b fill = (result, s.extend (b.admitted s.chunkBytes n) fill,
        b.charge (b.admitted s.chunkBytes n * s.chunkBytes)) ∧
      (result = .ok () ↔ b.admitted s.chunkBytes n = n) := by
  induction n generalizing s b with
  | zero => exact ⟨.ok (), by simp [addChunks, Budget.admitted], by simp [Budget.admitted]⟩
  | succ n ih =>
      rw [Budget.admitted_succ]
      by_cases hone : b.Affords s.chunkBytes
      · have hadmits : s.Admits b 1 := ⟨h, by rwa [Nat.one_mul]⟩
        obtain ⟨result, heq, hresult⟩ := ih (s := s.extend 1 fill) h (b.charge s.chunkBytes)
        refine ⟨result, ?_, ?_⟩
        · rw [addChunks, addChunk_of_admits hadmits, if_pos hone, Nat.succ_mul,
            Nat.add_comm _ s.chunkBytes, Nat.add_comm _ 1]
          simp only [heq, extend_extend, Budget.charge_charge, chunkBytes_extend]
        · rw [if_pos hone, hresult, chunkBytes_extend, Nat.add_right_cancel_iff]
      · have hadmits : ¬ s.Admits b 1 := by
          intro hadmits
          have haffords := hadmits.affords
          rw [Nat.one_mul] at haffords
          exact hone haffords
        obtain ⟨err, herr⟩ := addChunk_of_not_admits hadmits fill
        rw [if_neg hone]
        exact ⟨.error err, by simp [addChunks, herr], by simp⟩

/-- If a chunk or the list of them is too large, growing fails and leaves no trace: what has been
reserved for the chunk is given back. -/
theorem grow_of_too_large {chunks : Nat} (hlt : s.size < chunks)
    (htoo : maxAllocation < chunks * chunkEntryBytes ∨ maxAllocation < s.chunkBytes) (b : Budget)
    (fill : α) : ∃ err, s.grow b chunks fill = (.error err, s, b) := by
  rw [grow, if_neg (Nat.not_le.mpr hlt)]
  split
  case isTrue => exact ⟨.capacityOverflow, rfl⟩
  case isFalse hlist =>
      have hadmits : ¬ s.Admits b 1 := by
        intro h
        rcases htoo with hlong | hbytes
        · exact hlist hlong
        · exact Nat.not_le.mpr hbytes h.chunkBytes_le
      obtain ⟨n, hn⟩ := Nat.exists_eq_succ_of_ne_zero (Nat.sub_ne_zero_of_lt hlt)
      obtain ⟨err, herr⟩ := addChunk_of_not_admits hadmits fill
      rw [hn, addChunks, herr]
      exact ⟨err, rfl⟩

/-- Growing adds all chunks that can be had, and it succeeds if these are all that are missing. -/
theorem grow_eq_growth (s : ChunkStore α) (b : Budget) (chunks : Nat) (fill : α) :
    ∃ result, s.grow b chunks fill =
        (result, s.extend (growth b s.chunkBytes s.size chunks) fill,
          b.charge (growth b s.chunkBytes s.size chunks * s.chunkBytes)) ∧
      ∀ k, result = .ok k ↔
        k = chunks - s.size ∧ growth b s.chunkBytes s.size chunks = chunks - s.size := by
  rcases Nat.lt_or_ge s.size chunks with hlt | hle
  · by_cases hfits : chunks * chunkEntryBytes ≤ maxAllocation ∧ s.chunkBytes ≤ maxAllocation
    · obtain ⟨result, heq, hresult⟩ := addChunks_eq_admitted hfits.2 (chunks - s.size) b fill
      rw [grow, if_neg (Nat.not_le.mpr hlt), if_neg (Nat.not_lt.mpr hfits.1), growth, if_pos hfits,
        heq, ← hresult]
      cases result with
      | ok u => exact ⟨.ok (chunks - s.size), rfl, fun k => by simp [eq_comm]⟩
      | error err => exact ⟨.error err, rfl, fun k => by simp⟩
    · have htoo : maxAllocation < chunks * chunkEntryBytes ∨ maxAllocation < s.chunkBytes := by
        omega
      obtain ⟨err, herr⟩ := grow_of_too_large hlt htoo b fill
      rw [growth, if_neg hfits, herr, extend_zero, Nat.zero_mul, Budget.charge_zero]
      refine ⟨.error err, rfl, fun k => iff_of_false (by simp) ?_⟩
      intro hk
      exact Nat.sub_ne_zero_of_lt hlt hk.2.symm
  · have hnone : growth b s.chunkBytes s.size chunks = 0 := by
      rw [growth, Nat.sub_eq_zero_of_le hle]
      split <;> rfl
    rw [grow, if_pos hle, hnone, extend_zero, Nat.zero_mul, Budget.charge_zero]
    refine ⟨.ok 0, rfl, fun k => ?_⟩
    rw [Nat.sub_eq_zero_of_le hle, and_iff_left rfl, Except.ok.injEq, eq_comm]

/-! ### Truncating -/

theorem size_truncate (s : ChunkStore α) (b : Budget) (n : Nat) :
    (s.truncate b n).1.size = min n s.size := by
  simp [truncate, size]

/-- The chunks that are kept are as they were. -/
theorem get?_truncate (s : ChunkStore α) (b : Budget) (n : Nat) {chunk : Nat} (h : chunk < n)
    (offset : Nat) : (s.truncate b n).1.get? chunk offset = s.get? chunk offset := by
  have hchunk : (s.chunks.take n)[chunk]? = s.chunks[chunk]? := by
    rw [← Array.getElem?_toList, ← Array.getElem?_toList]
    simp [h]
  rw [get?_eq_bind, get?_eq_bind]
  exact congrArg (Option.bind · _) hchunk

namespace WellFormed

theorem truncate (h : s.WellFormed) (b : Budget) (n : Nat) : (s.truncate b n).1.WellFormed where
  size_of_mem := by
    intro c hmem
    have hkept : (s.chunks.take n).toList = s.chunks.toList.take n := by simp
    have hmem : c ∈ (s.chunks.take n).toList := Array.mem_toList_iff.mpr hmem
    rw [hkept] at hmem
    exact h.size_of_mem c (Array.mem_toList_iff.mp (List.mem_of_mem_take hmem))
  reservations_eq := by
    have hkept : (s.truncate b n).1.reservations = s.reservations.take n := rfl
    have hbytes : (s.truncate b n).1.chunkBytes = s.chunkBytes := rfl
    rw [size_truncate, hkept, hbytes, h.reservations_eq]
    simp

/-- Truncating gives back the bytes of the chunks that it drops. -/
theorem truncate_charge (h : s.WellFormed) (b : Budget) (n : Nat) :
    (s.truncate (b.charge ((s.size - n) * s.chunkBytes)) n).2 = b := by
  have hdropped : s.reservations.toList.drop n = List.replicate (s.size - n) ⟨s.chunkBytes⟩ := by
    rw [h.reservations_eq, Array.toList_replicate, List.drop_replicate]
  show Budget.releaseAll _ (s.reservations.toList.drop n) = b
  rw [hdropped, Budget.releaseAll_replicate]

end WellFormed

end ChunkStore

end GroupedExtrema
