import GroupedExtrema.Proofs.SetProduct

/-!
# Failing calls of a set

A call that a set does not refuse goes through the members in order and stops at the first one that
fails. So a failure has a place: the members before it are as after the call, those after it as
before, and the member itself has folded nothing. At most it has grown, if its column turned out to
be of the wrong type.

Because all members are asked for as many chunks and in the same order, no member ever has more
chunks than one before it, however many calls have failed and wherever.
-/

namespace GroupedExtrema

/-! ### Batches -/

namespace Batch

/-- The batch has been made of well-formed columns. -/
def IsMade (b : Batch) : Prop :=
  ∃ columns, (∀ c ∈ columns, c.WellFormed) ∧ ofColumns columns = .ok b

theorem length_eq_of_checkLengths {rows index : Nat} {columns : List Column}
    (h : checkLengths rows index columns = .ok ()) : ∀ c ∈ columns, c.length = rows := by
  induction columns generalizing index with
  | nil => exact fun c hc => absurd hc List.not_mem_nil
  | cons c cs ih =>
      unfold checkLengths at h
      split at h
      case isTrue hc => exact List.forall_mem_cons.mpr ⟨hc, ih h⟩
      case isFalse => exact absurd h (by simp)

/-- All columns of a batch have as many rows as the batch. -/
theorem IsMade.of_mem {b : Batch} (h : b.IsMade) {c : Column} (hc : c ∈ b.columns) :
    c.WellFormed ∧ c.length = b.rows := by
  obtain ⟨columns, hcolumns, hb⟩ := h
  unfold ofColumns at hb
  split at hb
  case h_1 =>
      rw [← Except.ok.inj hb] at hc
      exact absurd hc List.not_mem_nil
  case h_2 first rest =>
      split at hb
      case h_1 hlengths =>
          rw [← Except.ok.inj hb] at hc ⊢
          exact ⟨hcolumns c hc, length_eq_of_checkLengths hlengths c hc⟩
      case h_2 => exact absurd hb (by simp)

end Batch

/-- The batch of a call, if it has one, has been made of well-formed columns. -/
def SetCall.WellFormed : SetCall → Prop
  | accumulate batch _ => batch.IsMade
  | resized _ => True
  | reset => True

/-- A call that a set does not refuse is well-formed for each of its members, and none of them
refuses it. -/
theorem SetCall.WellFormed.forColumn? {c : SetCall} (h : c.WellFormed)
    (hrefusal : c.refusal? = none) {column : UInt64} {call : Call}
    (hcall : c.forColumn? column = some call) : call.WellFormed ∧ call.refusal? = none := by
  cases c with
  | accumulate batch ordinals =>
      obtain ⟨input, hinput, rfl⟩ := Option.map_eq_some_iff.mp hcall
      obtain ⟨hwf, hlength⟩ := Batch.IsMade.of_mem h (List.mem_of_getElem? hinput)
      refine ⟨hwf, if_neg ?_⟩
      rw [SetCall.refusal?] at hrefusal
      split at hrefusal
      case isTrue => exact absurd hrefusal (by simp)
      case isFalse hrows =>
          rw [hlength, Decidable.not_not.mp hrows]
          exact Nat.lt_irrefl _
  | resized chunks =>
      obtain rfl := Option.some.inj hcall
      exact ⟨trivial, rfl⟩
  | reset =>
      obtain rfl := Option.some.inj hcall
      exact ⟨trivial, rfl⟩

namespace Member

/-! ### Where an operation stops -/

section Stops

variable {op : Member → Budget → Except Error Unit × Member × Budget} {err err' : Error}
  {k k' : Nat} {m : Member} {ms ms' ms'' : List Member} {b b' b'' : Budget}

/-- What the first `i` members leave of the budget. -/
def budgetAt (op : Member → Budget → Except Error Unit × Member × Budget) (ms : List Member)
    (b : Budget) (i : Nat) : Budget :=
  (ms.take i).foldl (fun b m => (op m b).2.2) b

/-- The operation stops at the member with index `k`. -/
structure StopsAt (op : Member → Budget → Except Error Unit × Member × Budget) (err : Error)
    (k : Nat) (ms ms' : List Member) (b b' : Budget) : Prop where
  /-- Each member before it is as after its own success, within what those before it have left of
  the budget. -/
  before : ∀ i < k, ∃ m m', ms[i]? = some m ∧ ms'[i]? = some m' ∧
    op m (budgetAt op ms b i) = (.ok (), m', budgetAt op ms b (i + 1))
  failed : ∃ m m', ms[k]? = some m ∧ ms'[k]? = some m' ∧
    op m (budgetAt op ms b k) = (.error err, m', b')
  after : ∀ i, k < i → ms'[i]? = ms[i]?

theorem StopsAt.cons (hok : (op m b).1 = .ok ()) (h : StopsAt op err k ms ms' (op m b).2.2 b') :
    StopsAt op err (k + 1) (m :: ms) ((op m b).2.1 :: ms') b b' where
  before := by
    intro i hi
    cases i with
    | zero => exact ⟨m, (op m b).2.1, rfl, rfl, Prod.ext hok rfl⟩
    | succ i => exact h.before i (Nat.lt_of_succ_lt_succ hi)
  failed := h.failed
  after := by
    intro i hi
    cases i with
    | zero => exact absurd hi (Nat.not_lt_zero _)
    | succ i => exact h.after i (Nat.lt_of_succ_lt_succ hi)

/-- An operation that fails stops at some member. -/
theorem exists_stopsAt_each (herr : (each op ms b).1 = .error err) :
    ∃ k, StopsAt op err k ms (each op ms b).2.1 b (each op ms b).2.2 := by
  induction ms generalizing b with
  | nil => exact absurd herr (by simp [each])
  | cons m ms ih =>
      cases hm : (op m b).1 with
      | error e =>
          rw [each_cons_of_error hm] at herr ⊢
          obtain rfl := Except.error.inj herr
          refine ⟨0, fun i hi => absurd hi (Nat.not_lt_zero i), ?_, fun i hi => ?_⟩
          · exact ⟨m, (op m b).2.1, rfl, rfl, Prod.ext hm rfl⟩
          · obtain ⟨i, rfl⟩ := Nat.exists_eq_succ_of_ne_zero (Nat.ne_of_gt hi)
            rfl
      | ok u =>
          rw [each_cons_of_ok hm] at herr ⊢
          obtain ⟨k, hk⟩ := ih herr
          exact ⟨k + 1, hk.cons hm⟩

/-- A member before the one where an operation stops does not fail. -/
theorem StopsAt.not_lt (h : StopsAt op err k ms ms' b b') (h' : StopsAt op err' k' ms ms'' b b'') :
    ¬ k < k' := by
  intro hlt
  obtain ⟨m, m', hm, -, hfailed⟩ := h.failed
  obtain ⟨n, n', hn, -, hok⟩ := h'.before k hlt
  obtain rfl := Option.some.inj (hm.symm.trans hn)
  exact absurd (congrArg Prod.fst (hfailed.symm.trans hok)) (by simp)

/-- An operation stops at no more than one member. -/
theorem StopsAt.eq (h : StopsAt op err k ms ms' b b') (h' : StopsAt op err' k' ms ms'' b b'') :
    k' = k :=
  Nat.le_antisymm (Nat.not_lt.mp (h.not_lt h')) (Nat.not_lt.mp (h'.not_lt h))

end Stops

/-! ### What a failure leaves -/

variable {l : ChunkLayout} {c : SetCall} {m : Member} {ms : List Member} {b : Budget}

/-- A member for which a call fails is as before; or its column is of the wrong type, and it has
grown for the ordinals. -/
def LeftBy : SetCall → Error → Member → Member → Prop
  | .accumulate batch ordinals, err, m, m' =>
    m' = m ∨ ∃ column, batch.column? m.spec.input.toNat = some column ∧
      err = .wrongInput m.accumulator.accumulator.name column.datatype ∧
      m' = { m with accumulator := ⟨m.accumulator.kernel,
        m.accumulator.accumulator.extend (m.accumulator.accumulator.missing ordinals)⟩ }
  | .resized _, _, m, m' => m' = m
  | .reset, _, m, m' => m' = m

/-- The error comes from a member: it lacks its column, cannot grow, or has a column of the wrong
type. -/
def IsFailure (err : Error) : Prop :=
  err = .missingColumn ∨ err.IsExhaustion ∨ ∃ name t, err = .wrongInput name t

theorem not_isFailure_batchMismatch (rows n : Nat) : ¬ IsFailure (.batchMismatch rows n) := by
  simp [IsFailure, Error.IsExhaustion]

theorem not_isFailure_inputTooShort (rows n : Nat) : ¬ IsFailure (.inputTooShort rows n) := by
  simp [IsFailure, Error.IsExhaustion]

theorem LeftBy.refl (c : SetCall) (err : Error) (m : Member) : LeftBy c err m m := by
  cases c with
  | accumulate batch ordinals => exact Or.inl rfl
  | resized chunks => rfl
  | reset => rfl

theorem UsesLayout.error_apply (h : m.UsesLayout l) (hc : c.WellFormed)
    (hrefusal : c.refusal? = none) {err : Error} (herr : (m.apply c b).1 = .error err) :
    IsFailure err ∧ LeftBy c err m (m.apply c b).2.1 := by
  unfold Member.apply at herr ⊢
  split at herr
  case h_1 =>
      obtain rfl := Except.error.inj herr
      exact ⟨Or.inl rfl, .refl c _ m⟩
  case h_2 call hcall =>
      obtain ⟨hwf, hnone⟩ := hc.forColumn? hrefusal hcall
      rcases Accumulator.Fits.error_step h.fits hwf herr with
        ⟨hsome | hexhausted, hstate⟩ | ⟨input, ordinals, rfl, rfl, hstate⟩
      · rw [hnone] at hsome
        exact absurd hsome (by simp)
      · have hm : (m.step b call).2.1 = m := by
          rw [step_member, hstate]
        rw [hm]
        exact ⟨Or.inr (Or.inl hexhausted), .refl c err m⟩
      · have hm : (m.step b (.accumulate input ordinals)).2.1 = { m with
            accumulator := ⟨m.accumulator.kernel,
              m.accumulator.accumulator.extend (m.accumulator.accumulator.missing ordinals)⟩ } := by
          rw [step_member, hstate]
        refine ⟨Or.inr (Or.inr ⟨_, _, rfl⟩), ?_⟩
        cases c with
        | accumulate batch ordinals' =>
            -- The column of the member's call is the batch's, and the ordinals are the same.
            obtain ⟨column, hcolumn, heq⟩ := Option.map_eq_some_iff.mp hcall
            obtain ⟨rfl, rfl⟩ := Call.accumulate.inj heq
            exact Or.inr ⟨column, hcolumn, rfl, hm⟩
        | resized chunks => exact absurd hcall (by simp [SetCall.forColumn?])
        | reset => exact absurd hcall (by simp [SetCall.forColumn?])

/-! ### Numbers of chunks -/

theorem UsesLayout.size_apply_of_ok (h : m.UsesLayout l) (hok : (m.apply c b).1 = .ok ()) :
    (m.apply c b).2.1.size = max m.size (c.chunks l) := by
  unfold Member.apply at hok ⊢
  split at hok
  case h_1 => exact absurd hok (by simp)
  case h_2 call hcall =>
      have hsize := Accumulator.size_step_of_ok h.wellFormed hok
      rw [h.layout_eq, SetCall.chunks_forColumn? hcall] at hsize
      exact hsize

theorem UsesLayout.size_apply_bounds (h : m.UsesLayout l) (c : SetCall) (b : Budget) :
    m.size ≤ (m.apply c b).2.1.size ∧ (m.apply c b).2.1.size ≤ max m.size (c.chunks l) := by
  unfold Member.apply
  split
  case h_1 => exact ⟨Nat.le_refl _, Nat.le_max_left _ _⟩
  case h_2 call hcall =>
      have hsize := Accumulator.size_step_bounds h.wellFormed b call
      rw [h.layout_eq, SetCall.chunks_forColumn? hcall] at hsize
      exact hsize

/-- No member comes to have more chunks than one of them had or than the call needs. -/
theorem size_each_le (h : ∀ m ∈ ms, m.UsesLayout l) {n : Nat} (hn : ∀ m ∈ ms, m.size ≤ n) :
    ∀ m' ∈ (each (apply c) ms b).2.1, m'.size ≤ max n (c.chunks l) := by
  induction ms generalizing b with
  | nil => exact fun m' hm' => absurd hm' List.not_mem_nil
  | cons m ms ih =>
      obtain ⟨hm, hms⟩ := List.forall_mem_cons.mp h
      obtain ⟨hle, hles⟩ := List.forall_mem_cons.mp hn
      have hbound := (hm.size_apply_bounds c b).2
      cases happly : (m.apply c b).1 with
      | error err =>
          rw [each_cons_of_error happly]
          refine List.forall_mem_cons.mpr ⟨by omega, fun m' hm' => ?_⟩
          exact Nat.le_trans (hles m' hm') (Nat.le_max_left _ _)
      | ok u =>
          rw [each_cons_of_ok happly]
          exact List.forall_mem_cons.mpr ⟨by omega, ih hms hles⟩

/-- No member has more chunks than one before it. -/
def Descending (ms : List Member) : Prop := ms.Pairwise fun m m' => m'.size ≤ m.size

/-- A call keeps the members in that order, wherever it stops. -/
theorem descending_each (h : ∀ m ∈ ms, m.UsesLayout l) (hdesc : Descending ms) :
    Descending (each (apply c) ms b).2.1 := by
  induction ms generalizing b with
  | nil => exact List.Pairwise.nil
  | cons m ms ih =>
      obtain ⟨hm, hms⟩ := List.forall_mem_cons.mp h
      obtain ⟨hhead, htail⟩ := List.pairwise_cons.mp hdesc
      cases happly : (m.apply c b).1 with
      | error err =>
          -- Only the first member may have grown.
          rw [each_cons_of_error happly]
          refine List.pairwise_cons.mpr ⟨fun m' hm' => ?_, htail⟩
          exact Nat.le_trans (hhead m' hm') (hm.size_apply_bounds c b).1
      | ok u =>
          rw [each_cons_of_ok happly]
          refine List.pairwise_cons.mpr ⟨fun m' hm' => ?_, ih hms htail⟩
          rw [hm.size_apply_of_ok happly]
          exact size_each_le hms hhead m' hm'

end Member

/-! ### Sets -/

namespace AccumulatorSet

variable {config : Config} {s : AccumulatorSet}

/-- The call fails with an error at the member with index `k`. -/
structure FailsAt (s : AccumulatorSet) (c : SetCall) (err : Error) (k : Nat) : Prop where
  stops : Member.StopsAt (Member.apply c) err k s.members (s.step c).2.members s.budget
    (s.step c).2.budget
  left : ∀ m m', s.members[k]? = some m → (s.step c).2.members[k]? = some m' →
    Member.LeftBy c err m m'

/-- A failing call that the set does not refuse fails at one of the members. -/
theorem Paid.exists_failsAt (h : s.Paid config) {c : SetCall} (hc : c.WellFormed)
    (hrefusal : c.refusal? = none) {err : Error} (herr : (s.step c).1 = .error err) :
    Member.IsFailure err ∧ ∃ k, s.FailsAt c err k ∧ ∀ k', s.FailsAt c err k' → k' = k := by
  have hstep := s.step_eq c
  rw [hrefusal] at hstep
  rw [hstep] at herr
  obtain ⟨k, hk⟩ := Member.exists_stopsAt_each herr
  obtain ⟨m, m', hm, hm', hfailed⟩ := hk.failed
  have happly := (h.usesLayout m (List.mem_of_getElem? hm)).error_apply hc hrefusal
    (congrArg Prod.fst hfailed)
  rw [hfailed] at happly
  have hfails : s.FailsAt c err k := by
    refine ⟨hstep ▸ hk, fun n n' hn hn' => ?_⟩
    rw [hstep] at hn'
    obtain rfl := Option.some.inj (hm.symm.trans hn)
    obtain rfl := Option.some.inj (hm'.symm.trans hn')
    exact happly.2
  exact ⟨happly.1, k, hfails, fun k' hk' => hfails.stops.eq hk'.stops⟩

theorem Paid.descending_step (h : s.Paid config) (hdesc : Member.Descending s.members)
    (c : SetCall) : Member.Descending (s.step c).2.members := by
  rw [step_eq]
  split
  case h_1 => exact hdesc
  case h_2 => exact Member.descending_each h.usesLayout hdesc

theorem Paid.descending_run (h : s.Paid config) (hdesc : Member.Descending s.members)
    (calls : List SetCall) : Member.Descending (s.run calls).members := by
  induction calls generalizing s with
  | nil => exact hdesc
  | cons c cs ih => exact ih (h.step c) (h.descending_step hdesc c)

/-- All members of a new set have as many chunks. -/
theorem descending_create {source : OrdinalSource} {specs : List AggregateSpec}
    (h : create config source specs = .ok s) : Member.Descending s.members := by
  have hsize : ∀ m ∈ s.members, m.size = source.chunks := by
    intro m hm
    obtain ⟨i, hi⟩ := List.getElem?_of_mem hm
    obtain ⟨hspecs, halone⟩ := exists_isAlone_run h
      (show ∀ r ∈ s.answers [], r = .ok () from fun r hr => absurd hr List.not_mem_nil)
    have hspec : specs[i]? = some m.spec := by
      rw [← hspecs, AccumulatorSet.specs, List.getElem?_map]
      exact congrArg (Option.map (·.spec)) hi
    obtain ⟨a, ha, hfinal⟩ := halone i m.spec hspec
    obtain rfl := Option.some.inj ((accumulator?_eq hi).symm.trans ha)
    exact (Option.some.inj hfinal.max?_eq_size).symm
  exact List.pairwise_of_forall_mem_list fun m hm m' hm' =>
    Nat.le_of_eq ((hsize m' hm').trans (hsize m hm).symm)

/-- What failing calls of the set leave behind. -/
structure FailsInOrder (s : AccumulatorSet) : Prop where
  /-- A batch without one row for each ordinal is refused. -/
  refused : ∀ batch ordinals, batch.rows ≠ ordinals.length →
    s.accumulate batch ordinals = (.error (.batchMismatch batch.rows ordinals.length), s)
  /-- Whenever a batch is refused for its number of rows, nothing has changed. -/
  mismatch : ∀ batch ordinals rows n, batch.IsMade →
    (s.accumulate batch ordinals).1 = .error (.batchMismatch rows n) →
    (s.accumulate batch ordinals).2 = s
  /-- Accumulating fails in no other way than at one of the members. -/
  accumulate : ∀ batch ordinals err, batch.IsMade → (s.accumulate batch ordinals).1 = .error err →
    (∀ rows n, err ≠ .batchMismatch rows n) →
    ∃ k, s.FailsAt (.accumulate batch ordinals) err k ∧
      ∀ k', s.FailsAt (.accumulate batch ordinals) err k' → k' = k
  /-- No member ever finds its column too short. -/
  long_enough : ∀ batch ordinals rows n, batch.IsMade →
    (s.accumulate batch ordinals).1 ≠ .error (.inputTooShort rows n)
  /-- Growing fails in no other way than at one of the members. -/
  resized : ∀ chunks err, (s.resized chunks).1 = .error err →
    ∃ k, s.FailsAt (.resized chunks) err k ∧ ∀ k', s.FailsAt (.resized chunks) err k' → k' = k
  /-- No accumulator has more chunks than one before it. -/
  descending : ∀ (i j : Nat) (a a' : AnyAccumulator), i ≤ j → s.accumulator? i = some a →
    s.accumulator? j = some a' → a'.accumulator.size ≤ a.accumulator.size

theorem Paid.accumulate_error (h : s.Paid config) {batch : Batch} (hbatch : batch.IsMade)
    {ordinals : List UInt32} {err : Error} (herr : (s.accumulate batch ordinals).1 = .error err) :
    (∃ rows n, err = .batchMismatch rows n) ∧ (s.accumulate batch ordinals).2 = s ∨
      Member.IsFailure err ∧ ∃ k, s.FailsAt (.accumulate batch ordinals) err k ∧
        ∀ k', s.FailsAt (.accumulate batch ordinals) err k' → k' = k := by
  have hwf : (SetCall.accumulate batch ordinals).WellFormed := hbatch
  cases hrefusal : (SetCall.accumulate batch ordinals).refusal? with
  | some err' =>
      have hstep := s.step_of_refusal hrefusal
      obtain rfl := Except.error.inj (herr.symm.trans (congrArg Prod.fst hstep))
      exact Or.inl ⟨SetCall.eq_of_refusal? hrefusal, congrArg Prod.snd hstep⟩
  | none => exact Or.inr (h.exists_failsAt hwf hrefusal herr)

theorem Paid.failsInOrder (h : s.Paid config) (hdesc : Member.Descending s.members) :
    s.FailsInOrder where
  refused := fun batch ordinals hrows => if_pos hrows
  mismatch := by
    intro batch ordinals rows n hbatch herr
    rcases h.accumulate_error hbatch herr with ⟨-, hsame⟩ | ⟨hfailure, -⟩
    · exact hsame
    · exact absurd hfailure (Member.not_isFailure_batchMismatch rows n)
  accumulate := by
    intro batch ordinals err hbatch herr hne
    rcases h.accumulate_error hbatch herr with ⟨⟨rows, n, heq⟩, -⟩ | ⟨-, hfails⟩
    · exact absurd heq (hne rows n)
    · exact hfails
  long_enough := by
    intro batch ordinals rows n hbatch herr
    rcases h.accumulate_error hbatch herr with ⟨⟨rows', n', heq⟩, -⟩ | ⟨hfailure, -⟩
    · exact absurd heq (by simp)
    · exact absurd hfailure (Member.not_isFailure_inputTooShort rows n)
  resized := by
    intro chunks err herr
    have hwf : (SetCall.resized chunks).WellFormed := trivial
    exact (h.exists_failsAt hwf rfl herr).2
  descending := by
    intro i j a a' hij ha ha'
    obtain ⟨m, hm, rfl⟩ := Option.map_eq_some_iff.mp ha
    obtain ⟨m', hm', rfl⟩ := Option.map_eq_some_iff.mp ha'
    rcases Nat.eq_or_lt_of_le hij with rfl | hlt
    · obtain rfl := Option.some.inj (hm.symm.trans hm')
      exact Nat.le_refl _
    · obtain ⟨hi, rfl⟩ := List.getElem?_eq_some_iff.mp hm
      obtain ⟨hj, rfl⟩ := List.getElem?_eq_some_iff.mp hm'
      exact List.pairwise_iff_getElem.mp hdesc i j hi hj hlt

/-- Whatever has been called and whatever has failed before, a failing call of a set fails at a
single member and leaves all others either as before or as after the call. -/
theorem failsInOrder_run {source : OrdinalSource} {specs : List AggregateSpec}
    (h : create config source specs = .ok s) (calls : List SetCall) :
    (s.run calls).FailsInOrder := by
  have hpaid := paid_create h
  exact (hpaid.run calls).failsInOrder (hpaid.descending_run (descending_create h) calls)

/-- An ordinal in the second chunk, and 32-bit integers where 64-bit ones are expected. The member
before has grown and folded its row, the one with the wrong column has only grown, and the last one
is as before. -/
theorem failsInOrder_run_of_wrong_column :
    ∃ s batch err, create ⟨⟨5, by decide, by decide⟩, none⟩ ⟨⟨5, by decide, by decide⟩, 0⟩
        [⟨0, .max, .boolean⟩, ⟨1, .min, .int64⟩, ⟨0, .min, .boolean⟩] = .ok s ∧
      batch.IsMade ∧ ((s.run [.resized 1]).accumulate batch [40]).1 = .error err ∧
      ((s.run [.resized 1]).accumulate batch [40]).2.members.map Member.size = [2, 2, 1] ∧
      ∃ k, (s.run [.resized 1]).FailsAt (.accumulate batch [40]) err k := by
  obtain ⟨s, batch, err, hs, hbatch, herr, hne, hsizes⟩ : ∃ s batch err,
      create ⟨⟨5, by decide, by decide⟩, none⟩ ⟨⟨5, by decide, by decide⟩, 0⟩
        [⟨0, .max, .boolean⟩, ⟨1, .min, .int64⟩, ⟨0, .min, .boolean⟩] = .ok s ∧
      batch.IsMade ∧ ((s.run [.resized 1]).accumulate batch [40]).1 = .error err ∧
      (∀ rows n, err ≠ .batchMismatch rows n) ∧
      ((s.run [.resized 1]).accumulate batch [40]).2.members.map Member.size = [2, 2, 1] :=
    ⟨_, ⟨[.boolean (.ofValues ⟨1, #[1]⟩), .int32 (.ofValues #[7])], 1⟩, _, rfl,
      ⟨[.boolean (.ofValues ⟨1, #[1]⟩), .int32 (.ofValues #[7])], by decide, rfl⟩, rfl, by simp,
      by decide⟩
  obtain ⟨k, hk, -⟩ := (failsInOrder_run hs [.resized 1]).accumulate batch [40] err hbatch herr hne
  exact ⟨s, batch, err, hs, hbatch, herr, hsizes, k, hk⟩

end AccumulatorSet

end GroupedExtrema
