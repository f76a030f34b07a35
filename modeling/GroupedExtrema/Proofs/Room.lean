import GroupedExtrema.Proofs.Outcome

/-!
# Room to grow

Whether an accumulator gets the chunks that it asks for depends on how many it has and on what its
budget has left, so the two are looked at together (`Accumulator.Funded`). Growing to one number of
chunks and then to another is growing to the larger of them, and there is room for both exactly if
there is room for the larger one (`Funded.grown_grown`, `Funded.hasRoom_max_iff`).

A call that is not refused for what it is given runs out of memory if there is no room for its
chunks, and otherwise it does its work on the grown accumulator.
-/

namespace GroupedExtrema

namespace SlotTable

variable {α : Type} {t : SlotTable α}

theorem extend_extend (t : SlotTable α) (m n : Nat) : (t.extend m).extend n = t.extend (m + n) := by
  simp only [extend, ChunkStore.extend_extend]

@[simp] theorem chunkBytes_extend (t : SlotTable α) (n : Nat) :
    (t.extend n).chunkBytes = t.chunkBytes := rfl

/-- Is there room for all chunks up to a number? The budget has to afford those that are missing,
and a list of all of them may be no larger than an allocation. -/
def HasRoom (t : SlotTable α) (b : Budget) (chunks : Nat) : Prop :=
  chunks ≤ t.size ∨
    b.Affords ((chunks - t.size) * t.chunkBytes) ∧ chunks * chunkEntryBytes ≤ maxAllocation

/-- There is room for the larger of two numbers if there is room for one, and then for the other. -/
theorem hasRoom_max_iff (t : SlotTable α) (b : Budget) (m n : Nat) :
    t.HasRoom b (max m n) ↔ t.HasRoom b m ∧
      (t.extend (m - t.size)).HasRoom (b.charge ((m - t.size) * t.chunkBytes)) n := by
  by_cases hm : m ≤ t.size
  · have hroom : t.HasRoom b m := Or.inl hm
    rw [Nat.sub_eq_zero_of_le hm, extend_zero, Nat.zero_mul, Budget.charge_zero,
      and_iff_right hroom]
    by_cases hn : n ≤ t.size
    · exact iff_of_true (Or.inl (Nat.max_le.mpr ⟨hm, hn⟩)) (Or.inl hn)
    · rw [Nat.max_eq_right (by omega)]
  · have hsize : t.size + (m - t.size) = m := by omega
    by_cases hn : n ≤ m
    · have hroom : (t.extend (m - t.size)).HasRoom (b.charge ((m - t.size) * t.chunkBytes)) n := by
        refine Or.inl ?_
        rwa [size_extend, hsize]
      rw [Nat.max_eq_left hn, and_iff_left hroom]
    · -- Both numbers are past the chunks there are, and the bytes for them add up.
      have hbytes : (n - t.size) * t.chunkBytes =
          (m - t.size) * t.chunkBytes + (n - m) * t.chunkBytes := by
        rw [← Nat.add_mul]
        congr 1
        omega
      have hlist : m * chunkEntryBytes ≤ n * chunkEntryBytes := Nat.mul_le_mul_right _ (by omega)
      have hnsize : ¬ n ≤ t.size := by omega
      rw [Nat.max_eq_right (by omega)]
      simp only [HasRoom, size_extend, hsize, chunkBytes_extend, Budget.affords_charge, ← hbytes,
        or_iff_right hm, or_iff_right hn, or_iff_right hnsize]
      constructor
      · intro h
        refine ⟨⟨h.1.mono ?_, Nat.le_trans hlist h.2⟩, h⟩
        rw [hbytes]
        exact Nat.le_add_right _ _
      · intro h
        exact h.2

/-- A table is never larger than its list of chunks may be. -/
theorem Reachable.size_mul_le {l : ChunkLayout} {cellsPerChunk cellBytes : Nat} {identity : α}
    (h : Reachable l cellsPerChunk cellBytes identity t) :
    t.size * chunkEntryBytes ≤ maxAllocation := by
  have hgrow {t : SlotTable α} (h : Reachable l cellsPerChunk cellBytes identity t)
      (hsize : t.size * chunkEntryBytes ≤ maxAllocation) (b : Budget) (chunks : Nat) :
      (t.ensureChunks b chunks).2.1.size * chunkEntryBytes ≤ maxAllocation := by
    have hok := h.hasShape.wellFormed.ensureChunks_ok_iff b chunks
    rcases h.hasShape.wellFormed.ensureChunks_cases b chunks with ⟨err, heq⟩ | heq
    · rw [heq]
      exact hsize
    · rw [heq] at hok ⊢
      rw [size_extend]
      rcases hok.mp rfl with hle | ⟨-, hlist, -⟩
      · rwa [Nat.sub_eq_zero_of_le hle]
      · by_cases hle : chunks ≤ t.size
        · rwa [Nat.sub_eq_zero_of_le hle]
        · rwa [Nat.add_sub_of_le (Nat.le_of_not_le hle)]
  induction h with
  | empty => exact Nat.le_trans (Nat.le_of_eq (Nat.zero_mul _)) (Nat.zero_le _)
  | ensureChunks h b chunks ih => exact hgrow h ih b chunks
  | ensureOrdinals h b ordinals ih =>
      rw [ensureOrdinals_eq]
      exact hgrow h ih b _
  | modify _ hcells ih =>
      rw [ChunkStore.eq_update_of_modify? hcells]
      show (ChunkStore.update _ _ _ _).size * chunkEntryBytes ≤ maxAllocation
      rw [ChunkStore.size_update]
      exact ih
  | mark _ _ ih => exact ih
  | reset _ ih =>
      rw [size_reset]
      exact ih

end SlotTable

/-! ### Chunks of accumulators -/

/-- No layout has chunks that are larger than an allocation may be. -/
theorem ChunkLayout.capacity_mul_le (l : ChunkLayout) : l.capacity * 8 ≤ maxAllocation := by
  have hcapacity : l.capacity ≤ 2 ^ 24 := by
    rw [capacity_eq_two_pow]
    exact Nat.pow_le_pow_right (by decide) l.bits_le
  exact Nat.le_trans (Nat.mul_le_mul_right 8 hcapacity) (by decide)

theorem Kernel.valueChunkBytes_le (k : Kernel) (l : ChunkLayout) :
    k.valueChunkBytes l ≤ l.capacity * 8 := by
  have hwords := l.mul_wordsPerChunk
  unfold valueChunkBytes
  split
  case isTrue => omega
  case isFalse =>
      apply Nat.mul_le_mul_left
      cases k <;> decide

namespace Accumulator

variable {k : Kernel} {a : Accumulator k} {l : ChunkLayout}

/-- A chunk of either region is no larger than an allocation may be. -/
theorem UsesLayout.chunkBytes_le (h : a.UsesLayout l) :
    a.slots.cells.chunkBytes ≤ maxAllocation ∧
      a.slots.validity.words.chunkBytes ≤ maxAllocation := by
  have hshape := SlotTable.Reachable.hasShape h
  have hcapacity := l.capacity_mul_le
  constructor
  · rw [hshape.cells_chunkBytes, ← k.valueChunkBytes_eq]
    exact Nat.le_trans (k.valueChunkBytes_le l) hcapacity
  · have := l.mul_wordsPerChunk
    rw [hshape.words_chunkBytes]
    omega

theorem UsesLayout.ensureChunks_ok_iff (h : a.UsesLayout l) (b : Budget) (chunks : Nat) :
    (a.slots.ensureChunks b chunks).1 = .ok () ↔ a.slots.HasRoom b chunks := by
  obtain ⟨hcells, hwords⟩ := h.chunkBytes_le
  rw [h.wellFormed.ensureChunks_ok_iff, SlotTable.HasRoom]
  simp only [hcells, hwords, and_true]

/-! ### Accumulators and their budgets -/

/-- An accumulator together with the budget that it grows with. -/
abbrev Funded (k : Kernel) : Type := Accumulator k × Budget

namespace Funded

variable {s : Funded k} {c : Call} {m n : Nat}

/-- Is there room for all chunks up to a number? -/
def HasRoom (s : Funded k) (chunks : Nat) : Prop := s.1.slots.HasRoom s.2 chunks

/-- All chunks up to a number have been added and paid for. -/
def grown (s : Funded k) (chunks : Nat) : Funded k :=
  (s.1.extend (chunks - s.1.size), s.2.charge ((chunks - s.1.size) * s.1.slots.chunkBytes))

/-- The work of a call has been done. It takes no memory. -/
def performed (s : Funded k) (c : Call) : Funded k := ((s.1.perform c).2, s.2)

theorem size_grown (s : Funded k) (n : Nat) : (s.grown n).1.size = max s.1.size n := by
  rw [grown, size_extend]
  omega

theorem grown_of_le (h : n ≤ s.1.size) : s.grown n = s := by
  rw [grown, Nat.sub_eq_zero_of_le h, extend_zero, Nat.zero_mul, Budget.charge_zero]

/-- Growing in two steps is growing once to the larger number of chunks. -/
theorem grown_grown (s : Funded k) (m n : Nat) : (s.grown m).grown n = s.grown (max m n) := by
  have hsum : m - s.1.size + (n - (s.1.size + (m - s.1.size))) = max m n - s.1.size := by omega
  have hslots := s.1.slots.extend_extend (m - s.1.size) (n - (s.1.size + (m - s.1.size)))
  rw [hsum] at hslots
  refine Prod.ext ?_ ?_
  · show (s.1.extend _).extend (n - (s.1.extend (m - s.1.size)).size) = s.1.extend _
    rw [size_extend]
    exact congrArg (fun slots => { s.1 with slots := slots }) hslots
  · show (s.2.charge _).charge ((n - (s.1.extend (m - s.1.size)).size) * s.1.slots.chunkBytes) =
      s.2.charge _
    rw [size_extend, Budget.charge_charge, ← Nat.add_mul, hsum]

theorem hasRoom_max_iff (s : Funded k) (m n : Nat) :
    s.HasRoom (max m n) ↔ s.HasRoom m ∧ (s.grown m).HasRoom n :=
  s.1.slots.hasRoom_max_iff s.2 m n

/-! ### Calls -/

/-- A call that is refused leaves everything as it is. -/
theorem step_of_refusal (h : s.1.UsesLayout l) {err : Error} (hrefusal : c.refusal? = some err) :
    s.1.step s.2 c = (.error err, s) := by
  rw [step_eq h.wellFormed, hrefusal]

/-- A call for which there is room does its work on the grown accumulator. -/
theorem step_of_hasRoom (h : s.1.UsesLayout l) (hrefusal : c.refusal? = none)
    (hroom : s.HasRoom (c.chunks l)) :
    s.1.step s.2 c = (((s.grown (c.chunks l)).1.perform c).1,
      (s.grown (c.chunks l)).performed c) := by
  have hgrow := (h.ensureChunks_ok_iff s.2 (c.chunks l)).mpr hroom
  rw [step_eq h.wellFormed, h.layout_eq]
  simp only [hrefusal, hgrow]
  rfl

/-- A call for which there is no room runs out of memory. -/
theorem step_of_not_hasRoom (h : s.1.UsesLayout l) (hrefusal : c.refusal? = none)
    (hroom : ¬ s.HasRoom (c.chunks l)) :
    ∃ err : Error, err.IsExhaustion ∧ s.1.step s.2 c = (.error err, s) := by
  have hgrow := mt (h.ensureChunks_ok_iff s.2 (c.chunks l)).mp hroom
  cases hresult : (s.1.slots.ensureChunks s.2 (c.chunks l)).1 with
  | ok done => exact absurd hresult hgrow
  | error err =>
      refine ⟨err, SlotTable.isExhaustion_of_ensureChunks hresult, ?_⟩
      rw [step_eq h.wellFormed, h.layout_eq]
      simp only [hrefusal, hresult]

theorem step_resize (h : s.1.UsesLayout l) (hroom : s.HasRoom n) :
    s.1.step s.2 (.resize n) = (.ok (), s.grown n) :=
  step_of_hasRoom h rfl hroom

end Funded

/-- The work of a call does not run out of memory. -/
theorem not_isExhaustion_perform {c : Call} {err : Error} (h : (a.perform c).1 = .error err) :
    ¬ err.IsExhaustion := by
  cases c with
  | accumulate input ordinals =>
      simp only [perform, foldColumn] at h
      split at h
      case h_1 => exact absurd h (by simp)
      case h_2 =>
          split at h
          case h_1 =>
              rw [← Except.error.inj h]
              exact id
          case h_2 =>
              split at h
              case h_1 =>
                  rw [← Except.error.inj h]
                  exact id
              case h_2 => exact absurd h (by simp)
  | resize chunks => exact absurd h (by simp [perform])
  | reset => exact absurd h (by simp [perform])

/-- A call is refused for what it is given, not for want of memory. -/
theorem not_isExhaustion_refusal {c : Call} {err : Error} (h : c.refusal? = some err) :
    ¬ err.IsExhaustion := by
  cases c with
  | accumulate input ordinals =>
      rw [Call.refusal?] at h
      split at h
      · rw [← Option.some.inj h]
        exact id
      · exact absurd h (by simp)
  | resize chunks => exact absurd h (by simp [Call.refusal?])
  | reset => exact absurd h (by simp [Call.refusal?])

/-- The call does not fail for want of memory. -/
def GetsMemory (result : Except Error Unit) : Prop :=
  ∀ err, result = .error err → ¬ err.IsExhaustion

theorem getsMemory_ok : GetsMemory (.ok ()) := fun err h => absurd h (by simp)

theorem getsMemory_error_iff (err : Error) : GetsMemory (.error err) ↔ ¬ err.IsExhaustion := by
  constructor
  · intro h
    exact h err rfl
  · intro h err' herr
    rwa [← Except.error.inj herr]

instance : DecidablePred Error.IsExhaustion
  | .overBudget _ _ _ | .capacityOverflow => isTrue trivial
  | .bitsOutOfRange _ | .unallocated _ _ _ | .kernelRejects _ _ | .noKernel _ _ | .wrongInput _ _
  | .inputTooShort _ _ | .batchMismatch _ _ | .columnLength _ _ _ | .missingColumn
  | .layoutMismatch _ _ | .unreadableConfig _ | .outOfBounds => isFalse id

instance : DecidablePred GetsMemory
  | .ok () => isTrue getsMemory_ok
  | .error err => decidable_of_iff _ (getsMemory_error_iff err).symm

theorem Funded.getsMemory_step_iff {s : Funded k} (h : s.1.UsesLayout l) (c : Call) :
    GetsMemory (s.1.step s.2 c).1 ↔ (c.refusal? = none → s.HasRoom (c.chunks l)) := by
  cases hrefusal : c.refusal? with
  | some err =>
      rw [step_of_refusal h hrefusal, getsMemory_error_iff]
      exact iff_of_true (not_isExhaustion_refusal hrefusal) (by simp)
  | none =>
      by_cases hroom : s.HasRoom (c.chunks l)
      · rw [step_of_hasRoom h hrefusal hroom]
        exact iff_of_true (fun err herr => not_isExhaustion_perform herr) fun _ => hroom
      · obtain ⟨err, hexhausted, hstep⟩ := step_of_not_hasRoom h hrefusal hroom
        rw [hstep, getsMemory_error_iff]
        exact iff_of_false (not_not_intro hexhausted) fun himp => hroom (himp rfl)

end Accumulator

end GroupedExtrema
