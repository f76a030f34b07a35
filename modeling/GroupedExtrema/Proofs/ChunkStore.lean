import GroupedExtrema.Storage.ChunkStore

/-!
# Chunk stores as growing tables

Reasoning about a store goes through one view, `ChunkStore.get?`, and through three operations on it
that cannot fail: `update` changes one element, `extend` adds chunks, and `fill` overwrites
everything. The operations that can fail are these, or nothing:

* `modify?` is `update` wherever the element exists;
* `addChunks` is `extend` by as many chunks as the budget and the allocator allow, and it succeeds
  exactly if that is all of them;
* truncating an extended store to its old size undoes the extension, in the budget too.
-/

namespace GroupedExtrema

namespace Budget

/-- The budget after further bytes have been reserved. -/
def charge (b : Budget) (bytes : Nat) : Budget := { b with reserved := b.reserved + bytes }

@[simp] theorem charge_zero (b : Budget) : b.charge 0 = b := rfl

theorem charge_charge (b : Budget) (m n : Nat) : (b.charge m).charge n = b.charge (m + n) := by
  simp only [charge, Nat.add_assoc]

theorem charge_right_comm (b : Budget) (m n : Nat) :
    (b.charge m).charge n = (b.charge n).charge m := by
  rw [charge_charge, charge_charge, Nat.add_comm]

/-- A granted reservation charges its bytes. -/
theorem eq_charge_of_reserve {b b' : Budget} {bytes : Nat} {r : Reservation}
    (h : b.reserve bytes = .ok (r, b')) : r = ⟨bytes⟩ ∧ b' = b.charge bytes := by
  unfold reserve at h
  split at h
  · obtain ⟨rfl, rfl⟩ := Prod.mk.inj (Except.ok.inj h)
    exact ⟨rfl, rfl⟩
  · exact absurd h (by simp)

/-- Releasing a reservation gives its bytes back. Nothing is cut off at zero, for they are charged. -/
@[simp] theorem release_charge (b : Budget) (bytes : Nat) : (b.charge bytes).release ⟨bytes⟩ = b := by
  simp only [release, charge, Nat.add_sub_cancel]

/-- Releasing equal reservations gives all of their bytes back. -/
theorem releaseAll_replicate (b : Budget) (n bytes : Nat) :
    (b.charge (n * bytes)).releaseAll (List.replicate n ⟨bytes⟩) = b := by
  induction n with
  | zero => simp [releaseAll]
  | succ n ih =>
      have hone : (b.charge ((n + 1) * bytes)).release ⟨bytes⟩ = b.charge (n * bytes) := by
        rw [Nat.succ_mul, ← charge_charge, release_charge]
      rw [List.replicate_succ, releaseAll, List.foldl_cons, hone]
      exact ih

end Budget

namespace ChunkStore

variable {α : Type}

/-- Every chunk has the length of the store and is paid for by one reservation of its bytes. -/
structure WellFormed (s : ChunkStore α) : Prop where
  size_of_mem : ∀ c ∈ s.chunks, c.size = s.chunkLength
  reservations_eq : s.reservations = Array.replicate s.size ⟨s.chunkBytes⟩

/-! ### The view -/

theorem get?_eq_bind (s : ChunkStore α) (chunk offset : Nat) :
    s.get? chunk offset = s.chunks[chunk]?.bind (·[offset]?) := by
  unfold get?
  cases s.chunks[chunk]? <;> rfl

theorem wellFormed_empty (chunkLength elementBytes : Nat) :
    (empty chunkLength elementBytes : ChunkStore α).WellFormed :=
  ⟨by simp [empty], by simp [empty, size]⟩

/-- The elements of a store are those at the offsets of its chunks. -/
theorem WellFormed.isSome_get?_iff {s : ChunkStore α} (h : s.WellFormed) {chunk offset : Nat} :
    (s.get? chunk offset).isSome ↔ chunk < s.size ∧ offset < s.chunkLength := by
  rw [get?_eq_bind]
  by_cases hc : chunk < s.chunks.size
  · have hlen := h.size_of_mem _ (Array.getElem_mem hc)
    rw [Array.getElem?_eq_getElem hc, Option.bind_some, Option.isSome_iff_ne_none, ne_eq,
      Array.getElem?_eq_none_iff, hlen, Nat.not_le]
    exact ⟨fun ho => ⟨hc, ho⟩, And.right⟩
  · rw [Array.getElem?_eq_none (Nat.not_lt.mp hc)]
    exact ⟨fun hf => absurd hf (by simp), fun hlt => absurd hlt.1 hc⟩

/-! ### Changing one element -/

/-- The store with a function applied to one element. -/
def update (s : ChunkStore α) (chunk offset : Nat) (f : α → α) : ChunkStore α :=
  { s with chunks := s.chunks.modify chunk (·.modify offset f) }

@[simp] theorem size_update (s : ChunkStore α) (chunk offset : Nat) (f : α → α) :
    (s.update chunk offset f).size = s.size :=
  Array.size_modify

/-- Where an element exists, modifying it succeeds. -/
theorem WellFormed.modify?_eq {s : ChunkStore α} (h : s.WellFormed) {chunk offset : Nat}
    (hc : chunk < s.size) (ho : offset < s.chunkLength) (f : α → α) :
    s.modify? chunk offset f = some (s.update chunk offset f) := by
  have hin : s.inRange chunk offset = true := h.isSome_get?_iff.mpr ⟨hc, ho⟩
  rw [modify?, if_pos hin]
  rfl

/-- Modifying an element that exists is `update`. -/
theorem eq_update_of_modify? {s s' : ChunkStore α} {chunk offset : Nat} {f : α → α}
    (h : s.modify? chunk offset f = some s') : s' = s.update chunk offset f := by
  unfold modify? at h
  split at h
  · exact (Option.some.inj h).symm
  · exact absurd h (by simp)

theorem get?_update (s : ChunkStore α) (chunk offset : Nat) (f : α → α) (c o : Nat) :
    (s.update chunk offset f).get? c o =
      if c = chunk ∧ o = offset then (s.get? c o).map f else s.get? c o := by
  simp only [get?_eq_bind, update, Array.getElem?_modify]
  by_cases hc : chunk = c
  · subst hc
    cases hs : s.chunks[chunk]? with
    | none => simp
    | some a =>
        by_cases ho : offset = o
        · simp [ho, Array.getElem?_modify]
        · simp [ho, Ne.symm ho, Array.getElem?_modify]
  · simp [hc, Ne.symm hc]

/-- Changing an element to itself changes nothing. -/
theorem update_id (s : ChunkStore α) (chunk offset : Nat) : s.update chunk offset id = s := by
  have hid : ∀ {β : Type} (c : Array β) (i : Nat), c.modify i id = c := by
    intro β c i
    apply Array.ext_getElem?
    intro j
    rw [Array.getElem?_modify]
    split <;> simp
  rw [update, show (fun c : Array α => c.modify offset id) = id from funext fun c => hid c offset,
    hid]

theorem WellFormed.update {s : ChunkStore α} (h : s.WellFormed) (chunk offset : Nat) (f : α → α) :
    (s.update chunk offset f).WellFormed where
  size_of_mem := by
    intro c hmem
    obtain ⟨i, hi, rfl⟩ := Array.mem_iff_getElem.mp hmem
    have hi' : i < s.chunks.size := by simpa [ChunkStore.update] using hi
    have hlen := h.size_of_mem _ (Array.getElem_mem hi')
    simp only [ChunkStore.update, Array.getElem_modify]
    split
    · rw [Array.size_modify, hlen]
    · exact hlen
  reservations_eq := by
    rw [size_update]
    exact h.reservations_eq

/-! ### Adding chunks -/

/-- The store with `n` more chunks that hold `fill` everywhere, each with its reservation. -/
def extend (s : ChunkStore α) (n : Nat) (fill : α) : ChunkStore α :=
  { s with
    chunks := s.chunks ++ Array.replicate n (Array.replicate s.chunkLength fill)
    reservations := s.reservations ++ Array.replicate n ⟨s.chunkBytes⟩ }

@[simp] theorem size_extend (s : ChunkStore α) (n : Nat) (fill : α) :
    (s.extend n fill).size = s.size + n := by
  simp [extend, size]

@[simp] theorem chunkBytes_extend (s : ChunkStore α) (n : Nat) (fill : α) :
    (s.extend n fill).chunkBytes = s.chunkBytes := rfl

@[simp] theorem extend_zero (s : ChunkStore α) (fill : α) : s.extend 0 fill = s := by
  simp [extend]

theorem extend_extend (s : ChunkStore α) (m n : Nat) (fill : α) :
    (s.extend m fill).extend n fill = s.extend (m + n) fill := by
  simp [extend, chunkBytes, Array.append_assoc]

/-- Old chunks stay; new ones hold the fill everywhere. -/
theorem chunk?_extend (s : ChunkStore α) (n : Nat) (fill : α) (chunk : Nat) :
    (s.extend n fill).chunk? chunk =
      if chunk < s.size then s.chunk? chunk
      else if chunk < s.size + n then some (Array.replicate s.chunkLength fill) else none := by
  have hsize : s.chunks.size = s.size := rfl
  simp only [chunk?, extend, Array.getElem?_append, Array.getElem?_replicate, hsize]
  by_cases hc : chunk < s.size
  · rw [if_pos hc, if_pos hc]
  · -- Past the old chunks, the index counts on in the new ones.
    have hiff : chunk - s.size < n ↔ chunk < s.size + n := by omega
    simp only [if_neg hc, hiff]

/-- Old elements stay; every element of a new chunk is the fill. -/
theorem get?_extend (s : ChunkStore α) (n : Nat) (fill : α) (chunk offset : Nat) :
    (s.extend n fill).get? chunk offset =
      if chunk < s.size then s.get? chunk offset
      else if chunk < s.size + n ∧ offset < s.chunkLength then some fill else none := by
  have hchunk := s.chunk?_extend n fill chunk
  simp only [chunk?] at hchunk
  rw [get?_eq_bind, get?_eq_bind, hchunk]
  by_cases hc : chunk < s.size
  · rw [if_pos hc, if_pos hc]
  · rw [if_neg hc, if_neg hc]
    by_cases hn : chunk < s.size + n
    · rw [if_pos hn, Option.bind_some, Array.getElem?_replicate]
      simp [hn]
    · rw [if_neg hn, Option.bind_none, if_neg fun h => hn h.1]

theorem WellFormed.extend {s : ChunkStore α} (h : s.WellFormed) (n : Nat) (fill : α) :
    (s.extend n fill).WellFormed where
  size_of_mem := by
    intro c hmem
    rcases Array.mem_append.mp hmem with hold | hnew
    · exact h.size_of_mem c hold
    · rw [Array.eq_of_mem_replicate hnew, Array.size_replicate]
      rfl
  reservations_eq := by
    rw [size_extend, ← Array.replicate_append_replicate]
    exact congrArg (· ++ Array.replicate n _) h.reservations_eq

/-- One chunk more, or an error that leaves no trace: what had been reserved for a chunk that cannot
be allocated is given back. -/
theorem addChunk_cases (s : ChunkStore α) (budget : Budget) (fill : α) :
    (∃ e, s.addChunk budget fill = (.error e, budget)) ∨
      s.addChunk budget fill = (.ok (s.extend 1 fill), budget.charge s.chunkBytes) := by
  unfold addChunk
  split
  case _ e _ => exact Or.inl ⟨e, rfl⟩
  case _ r b hr =>
      obtain ⟨rfl, rfl⟩ := Budget.eq_charge_of_reserve hr
      split
      · exact Or.inr rfl
      · exact Or.inl ⟨_, congrArg (Prod.mk _) (budget.release_charge s.chunkBytes)⟩

/-- As many chunks as there is room for are added, and they are paid for. -/
theorem addChunks_eq (n : Nat) (s : ChunkStore α) (budget : Budget) (fill : α) :
    ∃ m ≤ n, ∃ r, addChunks n s budget fill =
        (r, s.extend m fill, budget.charge (m * s.chunkBytes)) ∧ (r = .ok () ↔ m = n) := by
  induction n generalizing s budget with
  | zero => exact ⟨0, Nat.le_refl 0, .ok (), by simp [addChunks], by simp⟩
  | succ n ih =>
      rcases s.addChunk_cases budget fill with ⟨e, he⟩ | hok
      · exact ⟨0, Nat.zero_le _, .error e, by simp [addChunks, he], by simp⟩
      · -- The remaining chunks are added to a store and a budget that have changed already.
        obtain ⟨m, hm, r, heq, hr⟩ := ih (s.extend 1 fill) (budget.charge s.chunkBytes)
        refine ⟨m + 1, Nat.succ_le_succ hm, r, ?_, by rw [hr, Nat.add_right_cancel_iff]⟩
        rw [addChunks, hok]
        simp only [heq, extend_extend, Budget.charge_charge, chunkBytes_extend, Nat.succ_mul,
          Nat.add_comm]

/-- Growing adds missing chunks up to the number asked for, and all of them if it succeeds. -/
theorem grow_eq (s : ChunkStore α) (budget : Budget) (chunks : Nat) (fill : α) :
    ∃ m ≤ chunks - s.size, ∃ r, s.grow budget chunks fill =
        (r, s.extend m fill, budget.charge (m * s.chunkBytes)) ∧
      ((∃ k, r = .ok k) → m = chunks - s.size) := by
  unfold grow
  split
  · exact ⟨0, Nat.zero_le _, .ok 0, by simp, fun _ => by omega⟩
  · split
    · exact ⟨0, Nat.zero_le _, .error .capacityOverflow, by simp, by simp⟩
    · obtain ⟨m, hm, r, heq, hr⟩ := addChunks_eq (chunks - s.size) s budget fill
      rw [heq]
      cases r with
      | ok u => exact ⟨m, hm, .ok (chunks - s.size), rfl, fun _ => hr.mp rfl⟩
      | error e => exact ⟨m, hm, .error e, rfl, by simp⟩

/-- Cutting an extended store back to its old size undoes the extension. -/
theorem WellFormed.truncate_extend {s : ChunkStore α} (h : s.WellFormed) (n : Nat) (fill : α)
    (budget : Budget) :
    (s.extend n fill).truncate (budget.charge (n * s.chunkBytes)) s.size = (s, budget) := by
  -- There is one reservation to a chunk, so both lists are cut at the same index.
  have hres : s.reservations.size = s.size := by
    rw [h.reservations_eq, Array.size_replicate]
  have hchunks : (s.extend n fill).chunks.take s.size = s.chunks := by
    simp [ChunkStore.extend, size]
  have hreservations : (s.extend n fill).reservations.take s.size = s.reservations := by
    simp [ChunkStore.extend, ← hres]
  have hdropped : (s.extend n fill).reservations.toList.drop s.size =
      List.replicate n ⟨s.chunkBytes⟩ := by
    rw [ChunkStore.extend, ← hres]
    simp
  rw [truncate, hchunks, hreservations, hdropped, Budget.releaseAll_replicate]
  rfl

/-! ### Overwriting everything -/

@[simp] theorem size_fill (s : ChunkStore α) (value : α) : (s.fill value).size = s.size := by
  simp [fill, size]

theorem get?_fill (s : ChunkStore α) (value : α) (chunk offset : Nat) :
    (s.fill value).get? chunk offset = (s.get? chunk offset).map fun _ => value := by
  simp only [get?_eq_bind, fill, Array.getElem?_map]
  cases s.chunks[chunk]? <;> simp

theorem WellFormed.fill {s : ChunkStore α} (h : s.WellFormed) (value : α) :
    (s.fill value).WellFormed where
  size_of_mem := by
    intro c hmem
    obtain ⟨c', hmem', rfl⟩ := Array.mem_map.mp hmem
    rw [Array.size_map]
    exact h.size_of_mem c' hmem'
  reservations_eq := by
    rw [size_fill]
    exact h.reservations_eq

end ChunkStore

end GroupedExtrema
