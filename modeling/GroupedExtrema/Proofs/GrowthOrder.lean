import GroupedExtrema.Proofs.AccumulateFailure
import GroupedExtrema.Proofs.Extension

/-!
# Growing early, late or on demand

A run makes chunks when a resize asks for them or when an ordinal needs them. As long as no call
fails for want of memory, it makes no difference when they are made: a call can be done after some
growth or before it, with the same result and the same accumulator and budget in the end
(`Funded.step_grown`). From one call this carries over to runs in two forms.

* The growth can be moved past a whole run, from its beginning to its end (`Funded.run_grown`).
* Resizes can be inserted anywhere. The run with them stays some growth ahead of the run without
  them, and of what the latter has at the end it changes nothing (`Funded.exists_run_grown`).

Calls that fail for what they are given are among the calls of a run, also those that grow first.
-/

namespace GroupedExtrema

/-- The second list is the first one with further elements of some kind inserted. -/
inductive Inserted {β : Type} (p : β → Prop) : List β → List β → Prop where
  | nil : Inserted p [] []
  | keep {x : β} {xs ys : List β} (h : Inserted p xs ys) : Inserted p (x :: xs) (x :: ys)
  | insert {y : β} {xs ys : List β} (hy : p y) (h : Inserted p xs ys) : Inserted p xs (y :: ys)

/-- The call does nothing but grow. -/
def Call.IsResize (c : Call) : Prop := ∃ n, c = .resize n

/-- The call did nothing but grow, and succeeded. -/
def Record.IsGrowth (r : Record) : Prop := ∃ n, r = (.resize n, .ok ())

namespace Accumulator

variable {k : Kernel} {a : Accumulator k} {b : Budget} {l : ChunkLayout}

/-- No call of the run fails for want of memory. -/
def RunsInMemory (a : Accumulator k) (b : Budget) (calls : List Call) : Prop :=
  ∀ r ∈ a.history b calls, GetsMemory r.2

instance (a : Accumulator k) (b : Budget) : DecidablePred (a.RunsInMemory b) :=
  fun calls => inferInstanceAs (Decidable (∀ r ∈ a.history b calls, GetsMemory r.2))

theorem runsInMemory_nil (a : Accumulator k) (b : Budget) : a.RunsInMemory b [] :=
  fun _ h => absurd h List.not_mem_nil

theorem runsInMemory_cons (a : Accumulator k) (b : Budget) (c : Call) (cs : List Call) :
    a.RunsInMemory b (c :: cs) ↔
      GetsMemory (a.step b c).1 ∧ (a.step b c).2.1.RunsInMemory (a.step b c).2.2 cs :=
  List.forall_mem_cons

theorem run_cons (a : Accumulator k) (b : Budget) (c : Call) (cs : List Call) :
    a.run b (c :: cs) = (a.step b c).2.1.run (a.step b c).2.2 cs := rfl

theorem run_append (a : Accumulator k) (b : Budget) (cs ds : List Call) :
    a.run b (cs ++ ds) = (a.run b cs).1.run (a.run b cs).2 ds := by
  induction cs generalizing a b with
  | nil => rfl
  | cons c cs ih => exact ih (a.step b c).2.1 (a.step b c).2.2

theorem history_append (a : Accumulator k) (b : Budget) (cs ds : List Call) :
    a.history b (cs ++ ds) = a.history b cs ++ (a.run b cs).1.history (a.run b cs).2 ds := by
  induction cs generalizing a b with
  | nil => rfl
  | cons c cs ih => exact congrArg (List.cons _) (ih (a.step b c).2.1 (a.step b c).2.2)

theorem runsInMemory_append (a : Accumulator k) (b : Budget) (cs ds : List Call) :
    a.RunsInMemory b (cs ++ ds) ↔
      a.RunsInMemory b cs ∧ (a.run b cs).1.RunsInMemory (a.run b cs).2 ds := by
  rw [RunsInMemory, history_append, List.forall_mem_append]
  rfl

theorem usesLayout_perform (h : a.UsesLayout l) (c : Call) : (a.perform c).2.UsesLayout l := by
  cases c with
  | accumulate input ordinals => exact h.foldColumn input ordinals
  | resize chunks => exact h
  | reset => exact SlotTable.Reachable.reset h

theorem usesLayout_run (h : a.UsesLayout l) (b : Budget) (calls : List Call) :
    (a.run b calls).1.UsesLayout l := by
  induction calls generalizing a b with
  | nil => exact h
  | cons c cs ih => exact ih (h.step b c).usesLayout (a.step b c).2.2

namespace Funded

variable {s : Funded k} {c : Call} {m n : Nat}

theorem usesLayout_grown (h : s.1.UsesLayout l) (hroom : s.HasRoom n) :
    (s.grown n).1.UsesLayout l := by
  have hstep := (h.step s.2 (.resize n)).usesLayout
  rw [step_resize h hroom] at hstep
  exact hstep

/-! ### One call -/

theorem chunkBytes_performed (h : s.1.UsesLayout l) (c : Call) :
    (s.performed c).1.slots.chunkBytes = s.1.slots.chunkBytes := by
  have hperformed : (s.performed c).1.UsesLayout l := usesLayout_perform h c
  rw [(SlotTable.Reachable.hasShape h).chunkBytes_eq,
    (SlotTable.Reachable.hasShape hperformed).chunkBytes_eq]

theorem hasRoom_performed_iff (h : s.1.UsesLayout l) (c : Call) (n : Nat) :
    (s.performed c).HasRoom n ↔ s.HasRoom n := by
  have hsize : (s.performed c).1.slots.size = s.1.slots.size := s.1.size_perform c
  rw [HasRoom, HasRoom, SlotTable.HasRoom, SlotTable.HasRoom, hsize, chunkBytes_performed h]
  rfl

/-- A call whose chunks are there does the same work beside further ones. -/
theorem perform_grown (h : s.1.UsesLayout l) (hchunks : c.chunks l ≤ s.1.size) (n : Nat) :
    ((s.grown n).1.perform c).1 = (s.1.perform c).1 ∧
      (s.grown n).performed c = (s.performed c).grown n := by
  have hperform : (s.grown n).1.perform c = _ := h.perform_extend hchunks (n - s.1.size)
  have hsize : (s.performed c).1.size = s.1.size := s.1.size_perform c
  constructor
  · rw [hperform]
  · rw [performed, hperform, grown.eq_def (s.performed c), hsize, chunkBytes_performed h]
    rfl

/-- There is memory for some growth and then a call if there is memory for the call and then the
growth. -/
theorem getsMemory_grown_iff (h : s.1.UsesLayout l) (c : Call) (n : Nat) :
    s.HasRoom n ∧ GetsMemory ((s.grown n).1.step (s.grown n).2 c).1 ↔
      GetsMemory (s.1.step s.2 c).1 ∧ Funded.HasRoom (s.1.step s.2 c).2 n := by
  have hmem := getsMemory_step_iff h c
  have hmem' : s.HasRoom n → (GetsMemory ((s.grown n).1.step (s.grown n).2 c).1 ↔
      (c.refusal? = none → (s.grown n).HasRoom (c.chunks l))) :=
    fun hroom => getsMemory_step_iff (usesLayout_grown h hroom) c
  rw [and_congr_right hmem', hmem]
  cases hrefusal : c.refusal? with
  | some err =>
      rw [step_of_refusal h hrefusal]
      simp
  | none =>
      have hstep : s.HasRoom (c.chunks l) →
          (Funded.HasRoom (s.1.step s.2 c).2 n ↔ (s.grown (c.chunks l)).HasRoom n) := by
        intro hroom
        rw [step_of_hasRoom h hrefusal hroom]
        exact hasRoom_performed_iff (usesLayout_grown h hroom) c n
      simp only [forall_const]
      rw [and_congr_right hstep, ← hasRoom_max_iff, ← hasRoom_max_iff, Nat.max_comm]

/-- A call can be done after some growth or before it. -/
theorem step_grown (h : s.1.UsesLayout l) (hmem : GetsMemory (s.1.step s.2 c).1)
    (hroom : Funded.HasRoom (s.1.step s.2 c).2 n) :
    (s.grown n).1.step (s.grown n).2 c =
      ((s.1.step s.2 c).1, Funded.grown (s.1.step s.2 c).2 n) := by
  obtain ⟨hfirst, hmem'⟩ := (getsMemory_grown_iff h c n).mpr ⟨hmem, hroom⟩
  have hgrown := usesLayout_grown h hfirst
  cases hrefusal : c.refusal? with
  | some err => rw [step_of_refusal h hrefusal, step_of_refusal hgrown hrefusal]
  | none =>
      have hcall := (getsMemory_step_iff h c).mp hmem hrefusal
      have hcall' := (getsMemory_step_iff hgrown c).mp hmem' hrefusal
      have hchunks : c.chunks l ≤ (s.grown (c.chunks l)).1.size := by
        rw [size_grown]
        exact Nat.le_max_right _ _
      -- Either way, the work is done on a table with all the chunks of both.
      have horder : (s.grown n).grown (c.chunks l) = (s.grown (c.chunks l)).grown n := by
        rw [grown_grown, grown_grown, Nat.max_comm]
      obtain ⟨hresult, hstate⟩ := perform_grown (usesLayout_grown h hcall) hchunks n
      rw [step_of_hasRoom h hrefusal hcall, step_of_hasRoom hgrown hrefusal hcall', horder, hresult,
        hstate]

/-! ### Runs -/

theorem runsInMemory_grown_iff (h : s.1.UsesLayout l) (calls : List Call) (n : Nat) :
    s.HasRoom n ∧ (s.grown n).1.RunsInMemory (s.grown n).2 calls ↔
      s.1.RunsInMemory s.2 calls ∧ Funded.HasRoom (s.1.run s.2 calls) n := by
  induction calls generalizing s with
  | nil =>
      exact ⟨fun hroom => ⟨runsInMemory_nil _ _, hroom.1⟩, fun hroom =>
        ⟨hroom.2, runsInMemory_nil _ _⟩⟩
  | cons c cs ih =>
      rw [runsInMemory_cons, runsInMemory_cons, run_cons, ← and_assoc, getsMemory_grown_iff h,
        and_assoc, and_assoc, ← ih (h.step s.2 c).usesLayout]
      refine and_congr_right fun hmem => and_congr_right fun hroom => ?_
      rw [step_grown h hmem hroom]

/-- Growth can be moved past a run. -/
theorem run_grown (h : s.1.UsesLayout l) {calls : List Call} (hmem : s.1.RunsInMemory s.2 calls)
    (hroom : Funded.HasRoom (s.1.run s.2 calls) n) :
    (s.grown n).1.history (s.grown n).2 calls = s.1.history s.2 calls ∧
      (s.grown n).1.run (s.grown n).2 calls = Funded.grown (s.1.run s.2 calls) n := by
  induction calls generalizing s with
  | nil => exact ⟨rfl, rfl⟩
  | cons c cs ih =>
      obtain ⟨hcall, hrest⟩ := (runsInMemory_cons _ _ c cs).mp hmem
      have hused := (h.step s.2 c).usesLayout
      have hgrow := ((runsInMemory_grown_iff hused cs n).mpr ⟨hrest, hroom⟩).1
      obtain ⟨hhistory, hrun⟩ := ih hused hrest hroom
      have hstep := step_grown h hcall hgrow
      simp only [history, run, hstep]
      exact ⟨congrArg _ hhistory, hrun⟩

/-- A run with resizes inserted into it has the same other results, and it stays some growth ahead
of the run without them. -/
theorem exists_run_grown {calls calls' : List Call} (hins : Inserted Call.IsResize calls calls')
    (h : s.1.UsesLayout l) (hroom : s.HasRoom m)
    (hmem : (s.grown m).1.RunsInMemory (s.grown m).2 calls') :
    s.1.RunsInMemory s.2 calls ∧
      Inserted Record.IsGrowth (s.1.history s.2 calls)
        ((s.grown m).1.history (s.grown m).2 calls') ∧
      ∃ n, Funded.HasRoom (s.1.run s.2 calls) n ∧
        (s.grown m).1.run (s.grown m).2 calls' = Funded.grown (s.1.run s.2 calls) n := by
  induction hins generalizing s m with
  | nil => exact ⟨runsInMemory_nil _ _, .nil, m, hroom, rfl⟩
  | @keep c cs cs' hins ih =>
      obtain ⟨hcall, hrest⟩ := (runsInMemory_cons _ _ c cs').mp hmem
      obtain ⟨hcall, hroom⟩ := (getsMemory_grown_iff h c m).mp ⟨hroom, hcall⟩
      have hstep := step_grown h hcall hroom
      rw [hstep] at hrest
      obtain ⟨hmem, hhistory, hrun⟩ := ih (h.step s.2 c).usesLayout hroom hrest
      refine ⟨(runsInMemory_cons _ _ c cs).mpr ⟨hcall, hmem⟩, ?_, ?_⟩
      · simp only [history, hstep]
        exact .keep hhistory
      · simp only [run, hstep]
        exact hrun
  | @insert c cs cs' hc hins ih =>
      obtain ⟨n, rfl⟩ := hc
      obtain ⟨hcall, hrest⟩ := (runsInMemory_cons _ _ (.resize n) cs').mp hmem
      have hgrown := usesLayout_grown h hroom
      have hmore : (s.grown m).HasRoom n :=
        (getsMemory_step_iff hgrown (.resize n)).mp hcall rfl
      have hstep := step_resize hgrown hmore
      have hlarger := (s.hasRoom_max_iff m n).mpr ⟨hroom, hmore⟩
      rw [grown_grown] at hstep
      rw [hstep] at hrest
      obtain ⟨hmem, hhistory, hrun⟩ := ih h hlarger hrest
      refine ⟨hmem, ?_, ?_⟩
      · simp only [history, hstep]
        exact .insert ⟨n, rfl⟩ hhistory
      · simp only [run, hstep]
        exact hrun

end Funded

/-! ### What a run shows of its growth -/

/-- The run of the second calls is ahead of the run of the first ones by some growth, and by nothing
else. -/
structure Outgrows (l : ChunkLayout) (a : Accumulator k) (b : Budget) (calls calls' : List Call) :
    Prop where
  runsInMemory : a.RunsInMemory b calls
  /-- The other results are the same. -/
  history : Inserted Record.IsGrowth (a.history b calls) (a.history b calls')
  readsLike : (a.run b calls).1.ReadsLike l (a.run b calls').1
  resize_eq : ∃ n, (a.run b calls).1.resize (a.run b calls).2 n = (.ok (), a.run b calls')

/-- As long as there is memory, it does not matter when the accumulator grows. -/
structure GrowsUnnoticed (l : ChunkLayout) (a : Accumulator k) : Prop where
  /-- There is memory for growing before a call if there is memory for growing after it. -/
  resize_step_iff : ∀ b n c,
    (a.resize b n).1 = .ok () ∧ GetsMemory ((a.resize b n).2.1.step (a.resize b n).2.2 c).1 ↔
      GetsMemory (a.step b c).1 ∧ ((a.step b c).2.1.resize (a.step b c).2.2 n).1 = .ok ()
  /-- The call has the same result, and both orders leave the same. -/
  resize_step : ∀ b n c, GetsMemory (a.step b c).1 →
    ((a.step b c).2.1.resize (a.step b c).2.2 n).1 = .ok () →
    (a.resize b n).2.1.step (a.resize b n).2.2 c =
      ((a.step b c).1, ((a.step b c).2.1.resize (a.step b c).2.2 n).2)
  inserted : ∀ b calls calls', Inserted Call.IsResize calls calls' → a.RunsInMemory b calls' →
    a.Outgrows l b calls calls'
  preallocated_iff : ∀ b n calls,
    a.RunsInMemory b (.resize n :: calls) ↔ a.RunsInMemory b (calls ++ [.resize n])
  /-- Growing ahead of a run is growing after it. -/
  preallocated : ∀ b n calls, a.RunsInMemory b (calls ++ [.resize n]) →
    a.history b (.resize n :: calls) = (.resize n, .ok ()) :: a.history b calls ∧
      a.history b (calls ++ [.resize n]) = a.history b calls ++ [(.resize n, .ok ())] ∧
      a.run b (.resize n :: calls) = a.run b (calls ++ [.resize n])

namespace UsesLayout

theorem resize_eq (h : a.UsesLayout l) {n : Nat} (hroom : Funded.HasRoom (a, b) n) :
    a.resize b n = (.ok (), Funded.grown (a, b) n) :=
  Funded.step_resize (s := (a, b)) h hroom

theorem resize_ok_iff (h : a.UsesLayout l) (b : Budget) (n : Nat) :
    (a.resize b n).1 = .ok () ↔ Funded.HasRoom (a, b) n :=
  h.ensureChunks_ok_iff b n

theorem runsInMemory_resize_cons_iff (h : a.UsesLayout l) (b : Budget) (n : Nat)
    (calls : List Call) :
    a.RunsInMemory b (.resize n :: calls) ↔ Funded.HasRoom (a, b) n ∧
      (Funded.grown (a, b) n).1.RunsInMemory (Funded.grown (a, b) n).2 calls := by
  have hroom : GetsMemory (a.step b (.resize n)).1 ↔ Funded.HasRoom (a, b) n := by
    rw [Funded.getsMemory_step_iff (s := (a, b)) h]
    exact ⟨fun himp => himp rfl, fun hroom _ => hroom⟩
  rw [runsInMemory_cons, hroom]
  refine and_congr_right fun hroom => ?_
  rw [show a.step b (.resize n) = _ from h.resize_eq hroom]

theorem runsInMemory_append_resize_iff (h : a.UsesLayout l) (b : Budget) (n : Nat)
    (calls : List Call) :
    a.RunsInMemory b (calls ++ [.resize n]) ↔
      a.RunsInMemory b calls ∧ Funded.HasRoom (a.run b calls) n := by
  rw [runsInMemory_append, (usesLayout_run h b calls).runsInMemory_resize_cons_iff,
    and_iff_left (runsInMemory_nil _ _)]

theorem outgrows (h : a.UsesLayout l) {calls calls' : List Call}
    (hins : Inserted Call.IsResize calls calls') (hmem : a.RunsInMemory b calls') :
    a.Outgrows l b calls calls' := by
  have hstart : Funded.grown (a, b) 0 = (a, b) := Funded.grown_of_le (Nat.zero_le _)
  have hroom : Funded.HasRoom (a, b) 0 := Or.inl (Nat.zero_le _)
  have hall := Funded.exists_run_grown (s := (a, b)) (m := 0) hins h hroom
  rw [hstart] at hall
  obtain ⟨hmem, hhistory, n, hroom, hrun⟩ := hall hmem
  have hused := usesLayout_run h b calls
  refine ⟨hmem, hhistory, ?_, n, ?_⟩
  · rw [hrun]
    exact hused.readsLike_extend _
  · rw [hrun]
    exact hused.resize_eq hroom

theorem toGrowsUnnoticed (h : a.UsesLayout l) : a.GrowsUnnoticed l where
  resize_step_iff := by
    intro b n c
    have hgrown : Funded.HasRoom (a, b) n →
        (GetsMemory ((a.resize b n).2.1.step (a.resize b n).2.2 c).1 ↔ GetsMemory
          ((Funded.grown (a, b) n).1.step (Funded.grown (a, b) n).2 c).1) := by
      intro hroom
      rw [h.resize_eq hroom]
    rw [h.resize_ok_iff, (h.step b c).usesLayout.resize_ok_iff, and_congr_right hgrown]
    exact Funded.getsMemory_grown_iff (s := (a, b)) h c n
  resize_step := by
    intro b n c hmem hok
    have hused := (h.step b c).usesLayout
    have hroom := (hused.resize_ok_iff _ n).mp hok
    have hfirst := ((Funded.getsMemory_grown_iff (s := (a, b)) h c n).mpr ⟨hmem, hroom⟩).1
    rw [h.resize_eq hfirst, hused.resize_eq hroom]
    exact Funded.step_grown (s := (a, b)) h hmem hroom
  inserted := fun b calls calls' => h.outgrows
  preallocated_iff := by
    intro b n calls
    rw [h.runsInMemory_resize_cons_iff, h.runsInMemory_append_resize_iff]
    exact Funded.runsInMemory_grown_iff (s := (a, b)) h calls n
  preallocated := by
    intro b n calls hmem
    obtain ⟨hcalls, hroom⟩ := (h.runsInMemory_append_resize_iff b n calls).mp hmem
    have hfirst := ((Funded.runsInMemory_grown_iff (s := (a, b)) h calls n).mpr ⟨hcalls, hroom⟩).1
    obtain ⟨hhistory, hrun⟩ := Funded.run_grown (s := (a, b)) h hcalls hroom
    have hearly : a.step b (.resize n) = (.ok (), Funded.grown (a, b) n) := h.resize_eq hfirst
    have hlate : (a.run b calls).1.step (a.run b calls).2 (.resize n) =
        (.ok (), Funded.grown (a.run b calls) n) := (usesLayout_run h b calls).resize_eq hroom
    rw [history_append, run_append, run_cons, run_cons]
    simp only [history, hearly, hlate]
    exact ⟨congrArg _ hhistory, trivial, hrun⟩

end UsesLayout

end Accumulator

namespace AnyAccumulator

variable {l : ChunkLayout} {a : AnyAccumulator}

/-- Whatever state an accumulator is in, what it comes to does not depend on when it grows. -/
theorem Reachable.growsUnnoticed (h : Reachable l a) : a.accumulator.GrowsUnnoticed l :=
  h.usesLayout.toGrowsUnnoticed

/-- The second call makes a third chunk and then refuses its column. With a resize before it and one
after it the run ends with five chunks, and what it shows of the first three is the same. -/
theorem Reachable.growsUnnoticed_of_wrong_column :
    ∃ a, create .max .int32 ⟨5, by decide, by decide⟩ = .ok a ∧
      let calls := [Call.accumulate (.int32 (.ofValues #[7, 3])) [40, 1],
        .accumulate (.boolean (.ofValues ⟨1, #[1]⟩)) [70]]
      let calls' := [Call.accumulate (.int32 (.ofValues #[7, 3])) [40, 1], .resize 2,
        .accumulate (.boolean (.ofValues ⟨1, #[1]⟩)) [70], .resize 5]
      (a.accumulator.run (.ofLimit none) calls).1.size = 3 ∧
        (a.accumulator.run (.ofLimit none) calls').1.size = 5 ∧
        a.accumulator.Outgrows ⟨5, by decide, by decide⟩ (.ofLimit none) calls calls' := by
  obtain ⟨a, ha, hsize, hsize', hmem⟩ :
      ∃ a, create .max .int32 ⟨5, by decide, by decide⟩ = .ok a ∧
        (a.accumulator.run (.ofLimit none) [.accumulate (.int32 (.ofValues #[7, 3])) [40, 1],
          .accumulate (.boolean (.ofValues ⟨1, #[1]⟩)) [70]]).1.size = 3 ∧
        (a.accumulator.run (.ofLimit none) [.accumulate (.int32 (.ofValues #[7, 3])) [40, 1],
          .resize 2, .accumulate (.boolean (.ofValues ⟨1, #[1]⟩)) [70], .resize 5]).1.size = 5 ∧
        a.accumulator.RunsInMemory (.ofLimit none)
          [.accumulate (.int32 (.ofValues #[7, 3])) [40, 1], .resize 2,
            .accumulate (.boolean (.ofValues ⟨1, #[1]⟩)) [70], .resize 5] :=
    ⟨_, rfl, by decide, by decide, by decide⟩
  refine ⟨a, ha, hsize, hsize', ?_⟩
  refine (ofDataType ha).growsUnnoticed.inserted _ _ _ ?_ hmem
  exact .keep (.insert ⟨2, rfl⟩ (.keep (.insert ⟨5, rfl⟩ .nil)))

end AnyAccumulator

end GroupedExtrema
