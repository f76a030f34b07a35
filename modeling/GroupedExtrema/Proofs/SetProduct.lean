import GroupedExtrema.Proofs.SetAccounting

/-!
# Sets as products

As long as all calls of a set succeed, each of its accumulators is what it would be on its own: made
for its aggregate with a budget without limit, grown to as many chunks as there were ordinals for,
and driven by what the calls of the set are for its column. Of the other members it sees only what
they take from the common budget, and that decides whether a call succeeds, but not what it does.

The proof runs every member a second time, with a budget of its own. That budget always has room
where the budget of the set has (`Budget.Covers`): whatever the member charges is charged to both,
and what the other members charge is charged to the set's only.
-/

namespace GroupedExtrema

/-! ### Budgets with more room -/

namespace Budget

/-- The first budget has room wherever the second one has. -/
def Covers (u b : Budget) : Prop := ∀ n, b.Affords n → u.Affords n

variable {u b : Budget}

/-- What others charge leaves less room in the second budget. -/
theorem Covers.charge_right (h : u.Covers b) (n : Nat) : u.Covers (b.charge n) := by
  intro m hm
  exact h m ((affords_charge.mp hm).mono (Nat.le_add_left m n))

/-- Bytes may be charged to both. -/
theorem Covers.charge (h : u.Covers b) (n : Nat) : (u.charge n).Covers (b.charge n) := by
  intro m hm
  exact affords_charge.mpr (h (n + m) (affords_charge.mp hm))

theorem ceiling_le (b : Budget) : b.ceiling ≤ 2 ^ 64 - 1 := by
  unfold ceiling
  split
  case h_1 l _ => exact Nat.le_sub_one_of_lt l.toNat_lt
  case h_2 => exact Nat.le_refl _

/-- No limit leaves at least as much room as any limit. -/
theorem covers_ofLimit (limit : Option UInt64) : (ofLimit none).Covers (ofLimit limit) := by
  intro n hn
  exact Nat.le_trans hn (ceiling_le _)

end Budget

/-! ### One call under two budgets -/

/-- What grows with one budget also grows with one that has more room. -/
theorem SlotTable.WellFormed.ensureChunks_ok_of_covers {α : Type} {t : SlotTable α}
    (h : t.WellFormed) {u b : Budget} (hu : u.Covers b) {chunks : Nat}
    (hok : (t.ensureChunks b chunks).1 = .ok ()) : (t.ensureChunks u chunks).1 = .ok () := by
  rw [h.ensureChunks_ok_iff] at hok ⊢
  exact hok.imp_right (And.imp_left (hu _))

namespace Accumulator

variable {k : Kernel} {a : Accumulator k} {l : ChunkLayout}

/-- With every budget that has the room of `b`, the call succeeds and leads to the second
accumulator, and the room of `b'` is left. -/
def StepsWithin (c : Call) (a a' : Accumulator k) (b b' : Budget) : Prop :=
  ∀ u : Budget, u.Covers b →
    (a.step u c).1 = .ok () ∧ (a.step u c).2.1 = a' ∧ (a.step u c).2.2.Covers b'

/-- Others may charge the budget before and after the call. -/
theorem StepsWithin.charge {c : Call} {a' : Accumulator k} {b b' : Budget} {m : Nat}
    (h : StepsWithin c a a' (b.charge m) b') (n : Nat) : StepsWithin c a a' b (b'.charge n) := by
  intro u hu
  obtain ⟨hok, hstate, hcovers⟩ := h u (hu.charge_right m)
  exact ⟨hok, hstate, hcovers.charge_right n⟩

/-- A call that succeeds with one budget succeeds alike with all that have more room. -/
theorem stepsWithin_of_ok (h : a.slots.WellFormed) {b : Budget} {c : Call}
    (hok : (a.step b c).1 = .ok ()) :
    StepsWithin c a (a.step b c).2.1 b (a.step b c).2.2 ∧
      ∃ n, (a.step b c).2.2 = b.charge n := by
  have hstep := step_eq h b c
  rw [hstep] at hok ⊢
  cases hrefusal : c.refusal? with
  | some err => exact absurd hok (by simp [hrefusal])
  | none =>
      cases hgrow : (a.slots.ensureChunks b (c.chunks a.layout)).1 with
      | error err => exact absurd hok (by simp [hrefusal, hgrow])
      | ok done =>
          simp only [hrefusal, hgrow] at hok ⊢
          refine ⟨fun u hu => ?_, _, rfl⟩
          -- The other budget grants the same growth, and the rest does not depend on it.
          have hstep' := step_eq h u c
          simp only [hrefusal, h.ensureChunks_ok_of_covers hu hgrow] at hstep'
          rw [hstep']
          exact ⟨hok, rfl, hu.charge _⟩

/-- After calls that succeed there are as many chunks as there were or as one of them needed. -/
theorem UsesLayout.size_run_le_iff (h : a.UsesLayout l) {b : Budget} {calls : List Call}
    (hok : ∀ r ∈ a.history b calls, r.2 = .ok ()) (n : Nat) :
    (a.run b calls).1.size ≤ n ↔ a.size ≤ n ∧ ∀ c ∈ calls, c.chunks l ≤ n := by
  induction calls generalizing a b with
  | nil => simp [run]
  | cons c cs ih =>
      obtain ⟨hokc, hokcs⟩ := List.forall_mem_cons.mp hok
      have hsize := size_step_of_ok h.wellFormed hokc
      have hrun := ih (h.step b c).usesLayout hokcs
      rw [hsize, h.layout_eq, Nat.max_le] at hrun
      rw [List.forall_mem_cons, ← and_assoc]
      exact hrun

end Accumulator

/-! ### Members -/

namespace Member

variable {l : ChunkLayout} {c : SetCall}

/-- What the call is for the member succeeds, within the room that the set's budget has. -/
def StepsWithin (c : SetCall) (m m' : Member) (b b' : Budget) : Prop :=
  ∃ call a', c.forColumn? m.spec.input = some call ∧
    m' = { m with accumulator := ⟨m.accumulator.kernel, a'⟩ } ∧
    Accumulator.StepsWithin call m.accumulator.accumulator a' b b'

theorem StepsWithin.charge {m m' : Member} {b b' : Budget} {n : Nat}
    (h : StepsWithin c m m' (b.charge n) b') (n' : Nat) : StepsWithin c m m' b (b'.charge n') := by
  obtain ⟨call, a', hcall, hm', hsteps⟩ := h
  exact ⟨call, a', hcall, hm', hsteps.charge n'⟩

theorem stepsWithin_of_ok {m : Member} (h : m.UsesLayout l) {b : Budget}
    (hok : (m.apply c b).1 = .ok ()) :
    StepsWithin c m (m.apply c b).2.1 b (m.apply c b).2.2 ∧
      ∃ n, (m.apply c b).2.2 = b.charge n := by
  unfold apply at hok ⊢
  split at hok
  case h_1 => exact absurd hok (by simp)
  case h_2 call hcall =>
      obtain ⟨hsteps, hcharge⟩ := Accumulator.stepsWithin_of_ok h.wellFormed hok
      exact ⟨⟨call, _, hcall, rfl, hsteps⟩, hcharge⟩

/-- If a call succeeds for all members, it does so for each of them within the common budget. -/
theorem stepsWithin_each {ms : List Member} (h : ∀ m ∈ ms, m.UsesLayout l) {b : Budget}
    (hok : (each (apply c) ms b).1 = .ok ()) :
    (∃ n, (each (apply c) ms b).2.2 = b.charge n) ∧
      ∀ (i : Nat) (m : Member), ms[i]? = some m → ∃ m', (each (apply c) ms b).2.1[i]? = some m' ∧
        StepsWithin c m m' b (each (apply c) ms b).2.2 := by
  induction ms generalizing b with
  | nil => exact ⟨⟨0, rfl⟩, fun i m hm => absurd hm (by simp)⟩
  | cons head tail ih =>
      obtain ⟨hhead, htail⟩ := List.forall_mem_cons.mp h
      obtain ⟨hokhead, hoktail⟩ := each_cons_ok_iff.mp hok
      obtain ⟨hsteps, n, hn⟩ := stepsWithin_of_ok hhead hokhead
      obtain ⟨⟨n', hn'⟩, hrest⟩ := ih htail hoktail
      rw [each_cons_of_ok hokhead]
      refine ⟨⟨n + n', by rw [hn', hn, Budget.charge_charge]⟩, fun i m hm => ?_⟩
      cases i with
      | zero =>
          -- The members after the first one charge what they need after it.
          obtain rfl := Option.some.inj hm
          rw [hn']
          exact ⟨_, rfl, StepsWithin.charge (n := 0) hsteps n'⟩
      | succ i =>
          obtain ⟨m', hm', hwithin⟩ := hrest i m hm
          rw [hn] at hwithin hm' ⊢
          exact ⟨m', hm', hwithin.charge 0⟩

/-- A member that has been made is a new accumulator, grown within the common budget. -/
theorem stepsWithin_create {chunks : Nat} {spec : AggregateSpec} {b b' : Budget} {m : Member}
    (h : create l chunks spec b = .ok (m, b')) :
    (∃ n, b' = b.charge n) ∧
      ∃ a a', AnyAccumulator.create spec.extremum spec.datatype l = .ok a ∧
        m = ⟨spec, ⟨a.kernel, a'⟩⟩ ∧
        Accumulator.StepsWithin (.resize chunks) a.accumulator a' b b' := by
  obtain ⟨a, a', ha, hresize, rfl⟩ := exists_of_create h
  obtain ⟨hlayout, -⟩ := AnyAccumulator.usesLayout_create ha
  have hsteps := Accumulator.stepsWithin_of_ok hlayout.wellFormed (congrArg Prod.fst hresize)
  rw [hresize] at hsteps
  exact ⟨hsteps.2, a, a', ha, rfl, hsteps.1⟩

@[inherit_doc stepsWithin_create]
theorem stepsWithin_createAll {chunks : Nat} {specs : List AggregateSpec} {b b' : Budget}
    {ms : List Member} (h : createAll l chunks specs b = .ok (ms, b')) :
    ms.map (·.spec) = specs ∧ (∃ n, b' = b.charge n) ∧
      ∀ (i : Nat) (m : Member), ms[i]? = some m →
        ∃ a a', AnyAccumulator.create m.spec.extremum m.spec.datatype l = .ok a ∧
          m.accumulator = ⟨a.kernel, a'⟩ ∧
          Accumulator.StepsWithin (.resize chunks) a.accumulator a' b b' := by
  induction specs generalizing b ms with
  | nil =>
      obtain ⟨rfl, rfl⟩ := Prod.mk.inj (Except.ok.inj h)
      exact ⟨rfl, ⟨0, rfl⟩, fun i m hm => absurd hm (by simp)⟩
  | cons spec specs ih =>
      obtain ⟨head, tail, b₁, hhead, htail, rfl⟩ := exists_of_createAll_cons h
      obtain ⟨⟨n, rfl⟩, a, a', ha, rfl, hwithin⟩ := stepsWithin_create hhead
      obtain ⟨hspecs, ⟨n', rfl⟩, hrest⟩ := ih htail
      refine ⟨congrArg (spec :: ·) hspecs, ⟨n + n', b.charge_charge n n'⟩, fun i m hm => ?_⟩
      cases i with
      | zero =>
          obtain rfl := Option.some.inj hm
          exact ⟨a, a', ha, rfl, Accumulator.StepsWithin.charge (m := 0) hwithin n'⟩
      | succ i =>
          obtain ⟨a, a', ha, hm, hwithin⟩ := hrest i m hm
          exact ⟨a, a', ha, hm, hwithin.charge 0⟩

end Member

/-! ### Sets -/

namespace SetCall

/-- The numbers of chunks that a call asks for: for each of its ordinals, or as they are. -/
def requests (l : ChunkLayout) : SetCall → List Nat
  | accumulate _ ordinals => ordinals.map l.chunksForOrdinal
  | resized chunks => [chunks]
  | reset => []

theorem chunks_le_iff (l : ChunkLayout) (c : SetCall) (n : Nat) :
    c.chunks l ≤ n ↔ ∀ r ∈ c.requests l, r ≤ n := by
  cases c with
  | accumulate batch ordinals =>
      simp only [chunks, requests, List.forall_mem_map, ChunkLayout.chunksForOrdinals_le_iff,
        ChunkLayout.chunksForOrdinal_le_iff]
  | resized k => simp only [chunks, requests, List.forall_mem_singleton]
  | reset => exact iff_of_true (Nat.zero_le n) (by simp [requests])

/-- What a call needs is what it needs in every member. -/
theorem forall_chunks_le_iff {column : UInt64} {calls : List SetCall} {cs : List Call}
    (h : calls.map (·.forColumn? column) = cs.map some) (l : ChunkLayout) (n : Nat) :
    (∀ c ∈ cs, c.chunks l ≤ n) ↔ ∀ c ∈ calls, c.chunks l ≤ n := by
  constructor
  · intro hall c hc
    have hmem : c.forColumn? column ∈ cs.map some := h ▸ List.mem_map_of_mem hc
    obtain ⟨call, hcall, heq⟩ := List.mem_map.mp hmem
    exact chunks_forColumn? heq.symm l ▸ hall call hcall
  · intro hall call hcall
    have hmem : some call ∈ calls.map (·.forColumn? column) := h ▸ List.mem_map_of_mem hcall
    obtain ⟨c, hc, heq⟩ := List.mem_map.mp hmem
    exact chunks_forColumn? heq l ▸ hall c hc

end SetCall

/-- The accumulator is what one for the aggregate comes to on its own: made with a budget without
limit, grown to so many chunks, and driven by what the calls of a set are for its column. All of
that succeeds. -/
def AnyAccumulator.IsAlone (l : ChunkLayout) (chunks : Nat) (spec : AggregateSpec)
    (calls : List SetCall) (final : AnyAccumulator) : Prop :=
  ∃ a cs, create spec.extremum spec.datatype l = .ok a ∧
    calls.map (·.forColumn? spec.input) = cs.map some ∧
    (∀ r ∈ a.accumulator.history (.ofLimit none) (.resize chunks :: cs), r.2 = .ok ()) ∧
    final = ⟨a.kernel, (a.accumulator.run (.ofLimit none) (.resize chunks :: cs)).1⟩

/-- Nothing but the aggregate and what the calls are for its column decides what an accumulator
comes to. -/
theorem AnyAccumulator.IsAlone.unique {l : ChunkLayout} {chunks : Nat} {spec : AggregateSpec}
    {calls calls' : List SetCall} {final final' : AnyAccumulator}
    (h : final.IsAlone l chunks spec calls) (h' : final'.IsAlone l chunks spec calls')
    (hcalls : calls.map (·.forColumn? spec.input) = calls'.map (·.forColumn? spec.input)) :
    final = final' := by
  obtain ⟨a, cs, ha, hcs, -, rfl⟩ := h
  obtain ⟨a', cs', ha', hcs', -, rfl⟩ := h'
  obtain rfl := Except.ok.inj (ha.symm.trans ha')
  have hsome : cs.map some = cs'.map some := hcs.symm.trans (hcalls.trans hcs')
  rw [(List.map_inj_right fun _ _ => Option.some.inj).mp hsome]

/-- The number of chunks is the largest one that the calls have asked for. -/
theorem AnyAccumulator.IsAlone.max?_eq_size {l : ChunkLayout} {chunks : Nat} {spec : AggregateSpec}
    {calls : List SetCall} {final : AnyAccumulator} (h : final.IsAlone l chunks spec calls) :
    (chunks :: calls.flatMap (·.requests l)).max? = some final.accumulator.size := by
  obtain ⟨a, cs, ha, hcs, hok, rfl⟩ := h
  obtain ⟨hlayout, -⟩ := AnyAccumulator.usesLayout_create ha
  have hzero := Accumulator.size_create (AnyAccumulator.create_accumulator ha)
  obtain ⟨largest, hlargest⟩ : ∃ n, (chunks :: calls.flatMap (·.requests l)).max? = some n :=
    ⟨_, List.max?_cons'⟩
  -- Both are the least bound of all that has been asked for.
  have hiff : ∀ n, largest ≤ n ↔
      (a.accumulator.run (.ofLimit none) (.resize chunks :: cs)).1.size ≤ n := by
    intro n
    rw [List.max?_le_iff hlargest, hlayout.size_run_le_iff hok, hzero, List.forall_mem_cons,
      List.forall_mem_cons, SetCall.forall_chunks_le_iff hcs, List.forall_mem_flatMap]
    simp only [SetCall.chunks_le_iff]
    exact ⟨fun h => ⟨Nat.zero_le n, h⟩, And.right⟩
  rw [hlargest]
  exact congrArg some (Nat.le_antisymm ((hiff _).mpr (Nat.le_refl _)) ((hiff _).mp (Nat.le_refl _)))

namespace AccumulatorSet

variable {config : Config} {s : AccumulatorSet}

/-- If all calls succeed, a member comes to what its own calls make of it, with every budget that
has the room of the set's. -/
theorem Paid.exists_run_alone (h : s.Paid config) {calls : List SetCall}
    (hok : ∀ r ∈ s.answers calls, r = .ok ()) {i : Nat} {m : Member} (hm : s.members[i]? = some m)
    {u : Budget} (hu : u.Covers s.budget) :
    ∃ cs, calls.map (·.forColumn? m.spec.input) = cs.map some ∧
      (∀ r ∈ m.accumulator.accumulator.history u cs, r.2 = .ok ()) ∧
      (s.run calls).members[i]? = some { m with
        accumulator := ⟨m.accumulator.kernel, (m.accumulator.accumulator.run u cs).1⟩ } := by
  induction calls generalizing s m u with
  | nil => exact ⟨[], rfl, fun r hr => absurd hr List.not_mem_nil, hm⟩
  | cons c calls ih =>
      rw [answers_cons, List.forall_mem_cons] at hok
      obtain ⟨hokc, hokcs⟩ := hok
      have hstep := s.step_eq c
      rw [hstep] at hokc
      cases hrefusal : c.refusal? with
      | some err =>
          rw [hrefusal] at hokc
          exact absurd hokc (by simp)
      | none =>
          rw [hrefusal] at hstep hokc
          obtain ⟨-, hmembers⟩ := Member.stepsWithin_each h.usesLayout hokc
          obtain ⟨m', hm', call, a', hcall, rfl, hsteps⟩ := hmembers i m hm
          obtain ⟨hokcall, rfl, hcovers⟩ := hsteps u hu
          have hpaid := h.step c
          rw [hstep] at hpaid hokcs
          obtain ⟨cs, hcs, hhistory, hrun⟩ := ih hpaid hokcs hm' hcovers
          refine ⟨call :: cs, ?_, List.forall_mem_cons.mpr ⟨hokcall, hhistory⟩, ?_⟩
          · rw [List.map_cons, List.map_cons, hcall]
            exact congrArg (some call :: ·) hcs
          · show ((s.step c).2.run calls).members[i]? = _
            rw [hstep]
            exact hrun

/-- A new set keeps one accumulator for each aggregate, and after calls that succeed each of them is
what it comes to on its own. -/
theorem exists_isAlone_run {source : OrdinalSource} {specs : List AggregateSpec}
    (h : create config source specs = .ok s) {calls : List SetCall}
    (hok : ∀ r ∈ s.answers calls, r = .ok ()) :
    (s.run calls).specs = specs ∧ ∀ (i : Nat) (spec : AggregateSpec), specs[i]? = some spec →
      ∃ a, (s.run calls).accumulator? i = some a ∧
        a.IsAlone config.layout source.chunks spec calls := by
  have hpaid := paid_create h
  obtain ⟨rfl, -, hmembers⟩ := Member.stepsWithin_createAll (createAll_of_create h)
  refine ⟨specs_run s calls, fun i spec hspec => ?_⟩
  obtain ⟨m, hm, rfl⟩ := Option.map_eq_some_iff.mp (List.getElem?_map ▸ hspec)
  obtain ⟨a, a', ha, heq, hsteps⟩ := hmembers i m hm
  -- On its own the member has a budget without limit.
  obtain ⟨hokcreate, rfl, hcovers⟩ := hsteps _ (Budget.covers_ofLimit config.memoryLimit)
  obtain ⟨cs, hcs, hhistory, hrun⟩ := hpaid.exists_run_alone hok hm hcovers
  rw [heq] at hhistory hrun
  refine ⟨_, accumulator?_eq hrun, a, cs, ha, hcs, ?_, rfl⟩
  exact List.forall_mem_cons.mpr ⟨hokcreate, hhistory⟩

/-- The set is the independent product of its accumulators. -/
structure IsProduct (config : Config) (source : OrdinalSource) (specs : List AggregateSpec)
    (calls : List SetCall) (s : AccumulatorSet) : Prop where
  /-- There is one accumulator for each aggregate. -/
  specs_eq : s.specs = specs
  /-- Each accumulator is what it comes to on its own. -/
  alone : ∀ (i : Nat) (spec : AggregateSpec), specs[i]? = some spec →
    ∃ a, s.accumulator? i = some a ∧ a.IsAlone config.layout source.chunks spec calls
  /-- All of them have as many chunks as there were at first or as some call has asked for. -/
  size_eq : ∀ (i : Nat) (a : AnyAccumulator), s.accumulator? i = some a →
    (source.chunks :: calls.flatMap (·.requests config.layout)).max? = some a.accumulator.size
  /-- In another set, whatever else it keeps in whatever order, the accumulator of the same
  aggregate is the same if its column was. -/
  independent : ∀ (config' : Config) (source' : OrdinalSource) (specs' : List AggregateSpec)
    (s' : AccumulatorSet) (calls' : List SetCall) (i j : Nat) (spec : AggregateSpec),
    create config' source' specs' = .ok s' → (∀ r ∈ s'.answers calls', r = .ok ()) →
    config'.layout = config.layout → source'.chunks = source.chunks →
    specs[i]? = some spec → specs'[j]? = some spec →
    calls.map (·.forColumn? spec.input) = calls'.map (·.forColumn? spec.input) →
    (s'.run calls').accumulator? j = s.accumulator? i

/-- As long as all calls succeed, a set is the independent product of its accumulators. -/
theorem isProduct_run {source : OrdinalSource} {specs : List AggregateSpec}
    (h : create config source specs = .ok s) {calls : List SetCall}
    (hok : ∀ r ∈ s.answers calls, r = .ok ()) :
    (s.run calls).IsProduct config source specs calls := by
  obtain ⟨hspecs, halone⟩ := exists_isAlone_run h hok
  refine ⟨hspecs, halone, fun i a ha => ?_, ?_⟩
  · obtain ⟨m, hm, rfl⟩ := Option.map_eq_some_iff.mp ha
    have hspec : specs[i]? = some m.spec := by
      rw [← hspecs, AccumulatorSet.specs, List.getElem?_map, hm]
      rfl
    obtain ⟨a, ha', hfinal⟩ := halone i m.spec hspec
    obtain rfl := Option.some.inj (ha.symm.trans ha')
    exact hfinal.max?_eq_size
  · intro config' source' specs' s' calls' i j spec h' hok' hlayout hchunks hi hj hcalls
    obtain ⟨-, halone'⟩ := exists_isAlone_run h' hok'
    obtain ⟨a, ha, hfinal⟩ := halone i spec hi
    obtain ⟨a', ha', hfinal'⟩ := halone' j spec hj
    rw [hlayout, hchunks] at hfinal'
    rw [ha, ha', hfinal'.unique hfinal hcalls.symm]

/-- A maximum of truth values, and a minimum and a maximum of the same column of integers, below a
limit of 3000 bytes. The minimum is that of a set which keeps nothing else and has no limit, and it
has as many chunks as the last call asks for. -/
theorem isProduct_run_of_shared_column :
    ∃ s s' calls,
      create ⟨⟨5, by decide, by decide⟩, some 3000⟩ ⟨⟨5, by decide, by decide⟩, 1⟩
        [⟨0, .max, .boolean⟩, ⟨1, .min, .int64⟩, ⟨1, .max, .int64⟩] = .ok s ∧
      create ⟨⟨5, by decide, by decide⟩, none⟩ ⟨⟨5, by decide, by decide⟩, 1⟩
        [⟨1, .min, .int64⟩] = .ok s' ∧
      calls = [.accumulate ⟨[.boolean (.ofValues ⟨2, #[1]⟩), .int64 (.ofValues #[5, -7])], 2⟩
        [40, 40], .reset, .resized 3] ∧
      (∀ r ∈ s.answers calls, r = .ok ()) ∧ (∀ r ∈ s'.answers calls, r = .ok ()) ∧
      (s.run calls).accumulator? 1 = (s'.run calls).accumulator? 0 ∧
      ∀ a, (s.run calls).accumulator? 1 = some a → a.accumulator.size = 3 := by
  obtain ⟨calls, hcalls⟩ : ∃ calls, calls = [SetCall.accumulate
      ⟨[.boolean (.ofValues ⟨2, #[1]⟩), .int64 (.ofValues #[5, -7])], 2⟩ [40, 40], .reset,
      .resized 3] := ⟨_, rfl⟩
  obtain ⟨s, hs, hok⟩ : ∃ s, create ⟨⟨5, by decide, by decide⟩, some 3000⟩
      ⟨⟨5, by decide, by decide⟩, 1⟩ [⟨0, .max, .boolean⟩, ⟨1, .min, .int64⟩, ⟨1, .max, .int64⟩] =
      .ok s ∧ ∀ r ∈ s.answers calls, r = .ok () := ⟨_, rfl, by rw [hcalls]; decide +kernel⟩
  obtain ⟨s', hs', hok'⟩ : ∃ s', create ⟨⟨5, by decide, by decide⟩, none⟩
      ⟨⟨5, by decide, by decide⟩, 1⟩ [⟨1, .min, .int64⟩] = .ok s' ∧
      ∀ r ∈ s'.answers calls, r = .ok () := ⟨_, rfl, by rw [hcalls]; decide +kernel⟩
  have hproduct := isProduct_run hs hok
  have hsame := hproduct.independent _ _ _ s' calls 1 0 ⟨1, .min, .int64⟩ hs' hok' rfl rfl rfl rfl
    rfl
  refine ⟨s, s', calls, hs, hs', hcalls, hok, hok', hsame.symm, fun a ha => ?_⟩
  have hsize := hproduct.size_eq 1 a ha
  rw [hcalls] at hsize
  exact (Option.some.inj (hsize.symm.trans rfl))

end AccumulatorSet

end GroupedExtrema
