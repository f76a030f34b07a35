import GroupedExtrema.Proofs.SetOutcome

/-!
# Memory accounting of sets

The members of a set share one budget. An operation goes through them in order and may end at any of
them; it pays for what each member has added up to there, so it pays for what all of them have come
to hold together.

A set therefore accounts for its memory at all times: what is reserved is what its accumulators
hold, and giving all of it back leaves nothing reserved.
-/

namespace GroupedExtrema

/-! ### Members of a set -/

namespace Member

variable {l : ChunkLayout}

/-- The member's accumulator uses a layout. -/
def UsesLayout (l : ChunkLayout) (m : Member) : Prop := m.accumulator.accumulator.UsesLayout l

/-- Bytes that the member's accumulator holds. -/
def allocatedBytes (m : Member) : Nat := m.accumulator.accumulator.allocatedBytes

/-- Bytes that all members hold. -/
def totalBytes (ms : List Member) : Nat := (ms.map allocatedBytes).sum

@[simp] theorem totalBytes_nil : totalBytes [] = 0 := rfl

@[simp] theorem totalBytes_cons (m : Member) (ms : List Member) :
    totalBytes (m :: ms) = m.allocatedBytes + totalBytes ms := by
  rw [totalBytes, List.map_cons, List.sum_cons]
  rfl

/-- The second members are the first ones after an operation that has paid for their growth. -/
structure StepTo (l : ChunkLayout) (ms ms' : List Member) (b b' : Budget) : Prop where
  usesLayout : ∀ m ∈ ms', m.UsesLayout l
  paysFor : b.PaysFor b' (totalBytes ms) (totalBytes ms')

theorem UsesLayout.step {m : Member} (h : m.UsesLayout l) (budget : Budget) (c : Call) :
    StepTo l [m] [(m.step budget c).2.1] budget (m.step budget c).2.2 := by
  have hstep := Accumulator.UsesLayout.step h budget c
  exact ⟨List.forall_mem_singleton.mpr hstep.usesLayout, hstep.paysFor⟩

/-- Any call of the set pays for what it is for the member. -/
theorem UsesLayout.apply {m : Member} (h : m.UsesLayout l) (c : SetCall) (b : Budget) :
    StepTo l [m] [(m.apply c b).2.1] b (m.apply c b).2.2 := by
  unfold Member.apply
  split
  case h_1 => exact ⟨List.forall_mem_singleton.mpr h, .refl b _⟩
  case h_2 call _ => exact h.step b call

/-- Members step one after the other. -/
theorem StepTo.cons {m m' : Member} {ms ms' : List Member} {b b' b'' : Budget}
    (h : StepTo l [m] [m'] b b') (hs : StepTo l ms ms' b' b'') :
    StepTo l (m :: ms) (m' :: ms') b b'' where
  usesLayout := List.forall_mem_cons.mpr
    ⟨List.forall_mem_singleton.mp h.usesLayout, hs.usesLayout⟩
  paysFor := by
    have hhead := h.paysFor.add_right (totalBytes ms)
    have htail := hs.paysFor.add_left m'.allocatedBytes
    simp only [totalBytes_cons, totalBytes_nil, Nat.add_zero] at hhead htail ⊢
    exact hhead.trans htail

/-- A call pays for all members, also if it ends at one that fails. -/
theorem stepTo_each {ms : List Member} (h : ∀ m ∈ ms, m.UsesLayout l) (c : SetCall) (b : Budget) :
    StepTo l ms (each (apply c) ms b).2.1 b (each (apply c) ms b).2.2 := by
  induction ms generalizing b with
  | nil => exact ⟨h, .refl b 0⟩
  | cons m ms ih =>
      obtain ⟨hm, hms⟩ := List.forall_mem_cons.mp h
      have hstep := hm.apply c b
      cases happly : (m.apply c b).1 with
      | error err =>
          rw [each_cons_of_error happly]
          exact hstep.cons ⟨hms, .refl _ _⟩
      | ok u =>
          rw [each_cons_of_ok happly]
          exact hstep.cons (ih hms _)

/-- A member that has been made is paid for. -/
theorem stepTo_create {chunks : Nat} {spec : AggregateSpec} {b b' : Budget} {m : Member}
    (h : create l chunks spec b = .ok (m, b')) : StepTo l [] [m] b b' := by
  obtain ⟨a, a', ha, hresize, rfl⟩ := exists_of_create h
  obtain ⟨hlayout, hzero⟩ := AnyAccumulator.usesLayout_create ha
  have hstep := hlayout.step b (.resize chunks)
  rw [hresize] at hstep
  have hpays := hstep.paysFor
  rw [hzero] at hpays
  exact ⟨List.forall_mem_singleton.mpr hstep.usesLayout, hpays⟩

/-- All members that have been made are paid for. -/
theorem stepTo_createAll {chunks : Nat} {specs : List AggregateSpec} {b b' : Budget}
    {ms : List Member} (h : createAll l chunks specs b = .ok (ms, b')) : StepTo l [] ms b b' := by
  induction specs generalizing b ms with
  | nil =>
      obtain ⟨rfl, rfl⟩ := Prod.mk.inj (Except.ok.inj h)
      exact ⟨fun m hm => absurd hm List.not_mem_nil, .refl b 0⟩
  | cons spec specs ih =>
      obtain ⟨m, ms', b₁, hm, hms, rfl⟩ := exists_of_createAll_cons h
      have hhead := stepTo_create hm
      have htail := ih hms
      refine ⟨List.forall_mem_cons.mpr
        ⟨List.forall_mem_singleton.mp hhead.usesLayout, htail.usesLayout⟩, ?_⟩
      have hsum := htail.paysFor.add_left m.allocatedBytes
      exact hhead.paysFor.trans hsum

/-- Giving back what all members hold undoes their charges. -/
theorem foldl_free_charge {ms : List Member} (h : ∀ m ∈ ms, m.UsesLayout l) (b : Budget) :
    ms.foldl (fun b m => m.accumulator.accumulator.free b) (b.charge (totalBytes ms)) = b := by
  induction ms with
  | nil => rfl
  | cons m ms ih =>
      obtain ⟨hm, hms⟩ := List.forall_mem_cons.mp h
      have hfree := hm.free_charge (b.charge (totalBytes ms))
      rw [Budget.charge_charge, Nat.add_comm] at hfree
      rw [List.foldl_cons, totalBytes_cons, allocatedBytes, hfree]
      exact ih hms

end Member

/-! ### Sets -/

namespace AccumulatorSet

/-- What is reserved is what the accumulators of the set hold, which is what their chunks take. It
is within the limit, and nothing of it remains once the set is gone. -/
structure Accounts (config : Config) (s : AccumulatorSet) : Prop where
  usage_eq : s.memoryUsage = (s.members.map fun m => m.accumulator.accumulator.allocatedBytes).sum
  usage_eq_chunks : s.memoryUsage = (s.members.map fun m => m.accumulator.accumulator.size *
    (m.accumulator.kernel.valueChunkBytes config.layout + 4 * config.layout.wordsPerChunk)).sum
  usage_le : ∀ limit ∈ config.memoryLimit, s.memoryUsage ≤ limit.toNat
  free_eq : s.free.reserved = 0

/-- The members of the set have come to what they are by operations that paid for their growth. -/
def Paid (config : Config) (s : AccumulatorSet) : Prop :=
  Member.StepTo config.layout [] s.members config.budget s.budget

variable {config : Config} {s : AccumulatorSet}

theorem paid_create {source : OrdinalSource} {specs : List AggregateSpec}
    (h : create config source specs = .ok s) : s.Paid config :=
  Member.stepTo_createAll (createAll_of_create h)

/-- What has been paid for accounts for itself. -/
theorem Paid.accounts (h : s.Paid config) : s.Accounts config := by
  obtain ⟨d, htotal, hbudget, hd⟩ := h.paysFor
  rw [Member.totalBytes_nil, Nat.zero_add] at htotal
  have husage : s.memoryUsage = d := by
    rw [memoryUsage, hbudget]
    exact Nat.zero_add d
  refine ⟨husage.trans htotal.symm, ?_, ?_, ?_⟩
  · rw [husage, ← htotal, Member.totalBytes]
    congr 1
    exact List.map_congr_left fun m hm => (h.usesLayout m hm).allocatedBytes_eq
  · intro limit hlimit
    rcases hd with rfl | haffords
    · exact husage ▸ Nat.zero_le _
    · have hceiling : config.budget.ceiling = limit.toNat := by
        rw [Budget.ceiling, show config.budget.limit = some limit from hlimit]
      rw [husage, ← hceiling, ← Nat.zero_add d]
      exact haffords
  · have hfree := Member.foldl_free_charge h.usesLayout config.budget
    rw [htotal, ← hbudget] at hfree
    exact congrArg Budget.reserved hfree

/-- Every call steps the members, whether it succeeds or fails. -/
theorem Paid.stepTo_step (h : s.Paid config) (c : SetCall) :
    Member.StepTo config.layout s.members (s.step c).2.members s.budget (s.step c).2.budget := by
  rw [step_eq]
  split
  case h_1 => exact ⟨h.usesLayout, .refl s.budget _⟩
  case h_2 => exact Member.stepTo_each h.usesLayout c s.budget

theorem Paid.step (h : s.Paid config) (c : SetCall) : (s.step c).2.Paid config :=
  ⟨(h.stepTo_step c).usesLayout, h.paysFor.trans (h.stepTo_step c).paysFor⟩

theorem Paid.run (h : s.Paid config) (calls : List SetCall) : (s.run calls).Paid config := by
  induction calls generalizing s with
  | nil => exact h
  | cons c cs ih => exact ih (h.step c)

/-- A set accounts for its memory at all times, whatever is called and whatever fails, and no call
makes its usage smaller. -/
theorem accounts_run {source : OrdinalSource} {specs : List AggregateSpec}
    (h : create config source specs = .ok s) (calls : List SetCall) :
    (s.run calls).Accounts config ∧
      ∀ c, (s.run calls).memoryUsage ≤ ((s.run calls).step c).2.memoryUsage := by
  have hpaid := (paid_create h).run calls
  exact ⟨hpaid.accounts, fun c => (hpaid.stepTo_step c).paysFor.reserved_le⟩

/-- A maximum of truth values, with chunks of 8 bytes, and a minimum of integers, with chunks of
260, below a limit of 600 bytes. Growing to three chunks succeeds for the first one only, and what
it has come to hold stays reserved. -/
theorem accounts_run_of_failing_call :
    ∃ s, create ⟨⟨5, by decide, by decide⟩, some 600⟩ ⟨⟨5, by decide, by decide⟩, 1⟩
        [⟨0, .max, .boolean⟩, ⟨1, .min, .int64⟩] = .ok s ∧
      (s.run [.resized 3]).memoryUsage = 3 * (4 + 4) + 1 * (256 + 4) ∧
      (s.run [.resized 3]).memoryUsage ≤ 600 ∧ (s.run [.resized 3]).free.reserved = 0 := by
  obtain ⟨s, hs, husage⟩ : ∃ s, create ⟨⟨5, by decide, by decide⟩, some 600⟩
      ⟨⟨5, by decide, by decide⟩, 1⟩ [⟨0, .max, .boolean⟩, ⟨1, .min, .int64⟩] = .ok s ∧
      (s.run [.resized 3]).memoryUsage = 284 := ⟨_, rfl, by decide⟩
  obtain ⟨haccounts, -⟩ := accounts_run hs [.resized 3]
  exact ⟨s, hs, husage, haccounts.usage_le 600 rfl, haccounts.free_eq⟩

end AccumulatorSet

end GroupedExtrema
