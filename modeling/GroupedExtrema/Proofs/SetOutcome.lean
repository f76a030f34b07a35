import GroupedExtrema.AccumulatorSet
import GroupedExtrema.Proofs.Outcome

/-!
# Calls of a set

For each of its members, a call of a set is a call of the member's own: the column that the member
reads takes the place of the batch. So all calls of a set are one operation on its members in order,
`Member.apply`, and only a batch that does not have a row for each ordinal is refused before any
member sees it. A set that has been made, in turn, is made of new accumulators that have grown.
-/

namespace GroupedExtrema

namespace SetCall

/-- What the call is for an accumulator that reads a column of the batches; none if the batch does
not have the column. -/
def forColumn? (column : UInt64) : SetCall → Option Call
  | accumulate batch ordinals => (batch.column? column.toNat).map (Call.accumulate · ordinals)
  | resized chunks => some (.resize chunks)
  | reset => some .reset

/-- Why a call is refused before any member sees it, if it is. -/
def refusal? : SetCall → Option Error
  | accumulate batch ordinals =>
    if batch.rows ≠ ordinals.length then some (.batchMismatch batch.rows ordinals.length) else none
  | resized _ => none
  | reset => none

/-- A call is refused for no other reason than its number of rows. -/
theorem eq_of_refusal? {c : SetCall} {err : Error} (h : c.refusal? = some err) :
    ∃ rows n, err = .batchMismatch rows n := by
  unfold refusal? at h
  split at h
  case h_1 =>
      split at h
      case isTrue => exact ⟨_, _, (Option.some.inj h).symm⟩
      case isFalse => exact absurd h (by simp)
  case h_2 => exact absurd h (by simp)
  case h_3 => exact absurd h (by simp)

/-- The number of chunks that a call needs in every member. -/
def chunks (l : ChunkLayout) : SetCall → Nat
  | accumulate _ ordinals => l.chunksForOrdinals ordinals
  | resized chunks => chunks
  | reset => 0

theorem chunks_forColumn? {c : SetCall} {column : UInt64} {call : Call}
    (h : c.forColumn? column = some call) (l : ChunkLayout) : call.chunks l = c.chunks l := by
  cases c with
  | accumulate batch ordinals =>
      obtain ⟨input, -, rfl⟩ := Option.map_eq_some_iff.mp h
      rfl
  | resized chunks => rw [← Option.some.inj h]; rfl
  | reset => rw [← Option.some.inj h]; rfl

end SetCall

namespace Member

/-! ### One operation on all members -/

section Each

variable {op : Member → Budget → Except Error Unit × Member × Budget} {m : Member}
  {ms : List Member} {b : Budget}

/-- A member that fails ends the operation. -/
theorem each_cons_of_error {err : Error} (h : (op m b).1 = .error err) :
    each op (m :: ms) b = (.error err, (op m b).2.1 :: ms, (op m b).2.2) := by
  rcases hop : op m b with ⟨result, m', b'⟩
  rw [hop] at h
  subst h
  simp only [each, hop]

/-- After a member that succeeds the operation goes on with what is left of the budget. -/
theorem each_cons_of_ok (h : (op m b).1 = .ok ()) :
    each op (m :: ms) b =
      ((each op ms (op m b).2.2).1, (op m b).2.1 :: (each op ms (op m b).2.2).2.1,
        (each op ms (op m b).2.2).2.2) := by
  rcases hop : op m b with ⟨result, m', b'⟩
  rw [hop] at h
  subst h
  simp only [each, hop]

/-- An operation succeeds if it does so for the first member and then for the others. -/
theorem each_cons_ok_iff :
    (each op (m :: ms) b).1 = .ok () ↔
      (op m b).1 = .ok () ∧ (each op ms (op m b).2.2).1 = .ok () := by
  cases hop : (op m b).1 with
  | error err =>
      rw [each_cons_of_error hop]
      exact iff_of_false (by simp) fun h => absurd h.1 (by simp)
  | ok u =>
      rw [each_cons_of_ok hop, and_iff_right rfl]

end Each

/-! ### One call for one member -/

/-- Number of chunks of the member's accumulator. -/
def size (m : Member) : Nat := m.accumulator.accumulator.size

/-- The member with its accumulator reset. -/
def reset (m : Member) : Member :=
  { m with accumulator := ⟨m.accumulator.kernel, m.accumulator.accumulator.reset⟩ }

/-- Performs what a call of the set is for the member. -/
def apply (c : SetCall) (m : Member) (b : Budget) : Except Error Unit × Member × Budget :=
  match c.forColumn? m.spec.input with
  | none => (.error .missingColumn, m, b)
  | some call => m.step b call

/-- A step of a member is one of its accumulator. -/
theorem step_member (m : Member) (b : Budget) (c : Call) :
    (m.step b c).2.1 = { m with
      accumulator := ⟨m.accumulator.kernel, (m.accumulator.accumulator.step b c).2.1⟩ } :=
  rfl

theorem apply_accumulate (batch : Batch) (ordinals : List UInt32) :
    apply (.accumulate batch ordinals) = fun m b => m.feed b batch ordinals := by
  funext m b
  cases hcolumn : batch.column? m.spec.input.toNat <;>
    simp only [apply, feed, SetCall.forColumn?, hcolumn, Option.map]

/-- Resetting needs no budget and always succeeds. -/
theorem each_reset (ms : List Member) (b : Budget) :
    each (apply .reset) ms b = (.ok (), ms.map reset, b) := by
  induction ms with
  | nil => rfl
  | cons m ms ih =>
      have hm : apply .reset m b = (.ok (), m.reset, b) := rfl
      rw [each_cons_of_ok (congrArg Prod.fst hm), hm, ih, List.map_cons]

/-- A call changes the accumulator and not the aggregate. -/
theorem spec_apply (c : SetCall) (m : Member) (b : Budget) : (m.apply c b).2.1.spec = m.spec := by
  unfold apply
  split
  case h_1 => rfl
  case h_2 => rfl

theorem map_spec_each (c : SetCall) (ms : List Member) (b : Budget) :
    (each (apply c) ms b).2.1.map (·.spec) = ms.map (·.spec) := by
  induction ms generalizing b with
  | nil => rfl
  | cons m ms ih =>
      cases hm : (m.apply c b).1 with
      | error err => rw [each_cons_of_error hm, List.map_cons, spec_apply, List.map_cons]
      | ok u => rw [each_cons_of_ok hm, List.map_cons, spec_apply, ih, List.map_cons]

/-! ### New members -/

section Create

variable {l : ChunkLayout} {chunks : Nat} {spec : AggregateSpec} {specs : List AggregateSpec}
  {m : Member} {ms : List Member} {b b' : Budget}

/-- A member that has been made is a new accumulator that has grown. -/
theorem exists_of_create (h : create l chunks spec b = .ok (m, b')) :
    ∃ a a', AnyAccumulator.create spec.extremum spec.datatype l = .ok a ∧
      a.accumulator.step b (.resize chunks) = (.ok (), a', b') ∧ m = ⟨spec, ⟨a.kernel, a'⟩⟩ := by
  unfold create at h
  split at h
  case h_1 => exact absurd h (by simp)
  case h_2 a ha =>
      unfold AnyAccumulator.step at h
      rcases hstep : a.accumulator.step b (.resize chunks) with ⟨⟨err⟩ | ⟨⟨⟩⟩, a', b''⟩
      · rw [hstep] at h
        exact absurd h (by simp)
      · rw [hstep] at h
        obtain ⟨rfl, rfl⟩ := Prod.mk.inj (Except.ok.inj h)
        exact ⟨a, a', ha, hstep, rfl⟩

/-- Members are made one after the other. -/
theorem exists_of_createAll_cons (h : createAll l chunks (spec :: specs) b = .ok (ms, b')) :
    ∃ m ms' b₁, create l chunks spec b = .ok (m, b₁) ∧
      createAll l chunks specs b₁ = .ok (ms', b') ∧ ms = m :: ms' := by
  unfold createAll at h
  split at h
  case h_1 => exact absurd h (by simp)
  case h_2 m b₁ hm =>
      split at h
      case h_1 => exact absurd h (by simp)
      case h_2 ms' b₂ hms =>
          obtain ⟨rfl, rfl⟩ := Prod.mk.inj (Except.ok.inj h)
          exact ⟨m, ms', b₁, hm, hms, rfl⟩

end Create

end Member

namespace AccumulatorSet

/-- A set that has been made has made all of its members. -/
theorem createAll_of_create {config : Config} {source : OrdinalSource} {specs : List AggregateSpec}
    {s : AccumulatorSet} (h : create config source specs = .ok s) :
    Member.createAll config.layout source.chunks specs config.budget =
      .ok (s.members, s.budget) := by
  unfold create at h
  split at h
  case isTrue => exact absurd h (by simp)
  case isFalse =>
      split at h
      case h_1 => exact absurd h (by simp)
      case h_2 heq =>
          rw [← Except.ok.inj h]
          exact heq

theorem accumulator?_eq {s : AccumulatorSet} {i : Nat} {m : Member} (h : s.members[i]? = some m) :
    s.accumulator? i = some m.accumulator := by
  rw [accumulator?, h]
  rfl

/-- The results of the calls of a run. -/
def answers (s : AccumulatorSet) : List SetCall → List (Except Error Unit)
  | [] => []
  | c :: cs =>
    match s.step c with
    | (result, s) => result :: answers s cs

theorem answers_cons (s : AccumulatorSet) (c : SetCall) (cs : List SetCall) :
    s.answers (c :: cs) = (s.step c).1 :: (s.step c).2.answers cs := rfl

/-- A call is refused, or it is applied to the members in order. -/
theorem step_eq (s : AccumulatorSet) (c : SetCall) :
    s.step c =
      match c.refusal? with
      | some err => (.error err, s)
      | none =>
        ((Member.each (Member.apply c) s.members s.budget).1,
          ⟨(Member.each (Member.apply c) s.members s.budget).2.1,
            (Member.each (Member.apply c) s.members s.budget).2.2⟩) := by
  cases c with
  | accumulate batch ordinals =>
      by_cases hrows : batch.rows ≠ ordinals.length
      · simp only [step, accumulate, SetCall.refusal?, if_pos hrows]
      · simp only [step, accumulate, SetCall.refusal?, if_neg hrows, Member.apply_accumulate]
  | resized chunks => rfl
  | reset =>
      simp only [SetCall.refusal?, Member.each_reset]
      rfl

/-- A refused call changes nothing. -/
theorem step_of_refusal (s : AccumulatorSet) {c : SetCall} {err : Error}
    (h : c.refusal? = some err) : s.step c = (.error err, s) := by
  rw [step_eq, h]

/-- The set keeps its aggregates. -/
theorem specs_step (s : AccumulatorSet) (c : SetCall) : (s.step c).2.specs = s.specs := by
  rw [step_eq]
  split
  case h_1 => rfl
  case h_2 => exact Member.map_spec_each c s.members s.budget

theorem specs_run (s : AccumulatorSet) (calls : List SetCall) : (s.run calls).specs = s.specs := by
  induction calls generalizing s with
  | nil => rfl
  | cons c cs ih => exact (ih _).trans (s.specs_step c)

end AccumulatorSet

end GroupedExtrema
