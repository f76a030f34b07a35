import GroupedExtrema.Accumulator
import GroupedExtrema.Column.Batch
import GroupedExtrema.Config

/-!
# Sets of accumulators

A set feeds the columns of a batch to one accumulator per aggregate, all of them paid for by one
budget. Each operation goes through the members in order and stops at the first one that fails: the
members before it keep what the operation did, those after it are untouched.
-/

namespace GroupedExtrema

/-- An aggregate and its accumulator. -/
structure Member where
  spec : AggregateSpec
  accumulator : AnyAccumulator

/-- The accumulators of all aggregates and their budget. -/
structure AccumulatorSet where
  members : List Member
  budget : Budget

/-- One operation on a set. -/
inductive SetCall where
  /-- Folds the columns of a batch into the slots of the ordinals. -/
  | accumulate (batch : Batch) (ordinals : List UInt32)
  /-- The ordinals have grown to so many chunks. -/
  | resized (chunks : Nat)
  /-- Forgets all rows. -/
  | reset

namespace Member

/-- A new accumulator with so many chunks for an aggregate. -/
def create (layout : ChunkLayout) (chunks : Nat) (spec : AggregateSpec) (budget : Budget) :
    Except Error (Member × Budget) :=
  match AnyAccumulator.create spec.extremum spec.datatype layout with
  | .error e => .error e
  | .ok a =>
    match a.step budget (.resize chunks) with
    | (.error e, _, _) => .error e
    | (.ok (), a, budget) => .ok (⟨spec, a⟩, budget)

/-- Performs one operation on the accumulator. -/
def step (m : Member) (budget : Budget) (c : Call) : Except Error Unit × Member × Budget :=
  match m.accumulator.step budget c with
  | (result, a, budget) => (result, { m with accumulator := a }, budget)

/-- Folds the column of a batch that the aggregate reads. -/
def feed (m : Member) (budget : Budget) (batch : Batch) (ordinals : List UInt32) :
    Except Error Unit × Member × Budget :=
  match batch.column? m.spec.input.toNat with
  | none => (.error .missingColumn, m, budget)
  | some column => m.step budget (.accumulate column ordinals)

/-- Performs an operation on each member in order, up to the first failure. -/
def each (op : Member → Budget → Except Error Unit × Member × Budget) :
    List Member → Budget → Except Error Unit × List Member × Budget
  | [], budget => (.ok (), [], budget)
  | m :: ms, budget =>
    match op m budget with
    | (.error e, m, budget) => (.error e, m :: ms, budget)
    | (.ok (), m, budget) =>
      match each op ms budget with
      | (result, ms, budget) => (result, m :: ms, budget)

/-- New accumulators for aggregates in order, or the error of the first one that cannot be made. -/
def createAll (layout : ChunkLayout) (chunks : Nat) :
    List AggregateSpec → Budget → Except Error (List Member × Budget)
  | [], budget => .ok ([], budget)
  | spec :: specs, budget =>
    match create layout chunks spec budget with
    | .error e => .error e
    | .ok (m, budget) =>
      match createAll layout chunks specs budget with
      | .error e => .error e
      | .ok (ms, budget) => .ok (m :: ms, budget)

end Member

namespace AccumulatorSet

/-- A set with as many chunks as the ordinals have. The chunks of slots and of ordinals must be
alike. -/
def create (config : Config) (source : OrdinalSource) (specs : List AggregateSpec) :
    Except Error AccumulatorSet :=
  if config.layout ≠ source.layout then
    .error (.layoutMismatch config.layout source.layout)
  else
    match Member.createAll config.layout source.chunks specs config.budget with
    | .error e => .error e
    | .ok (members, budget) => .ok ⟨members, budget⟩

/-- The aggregates of the set. -/
def specs (s : AccumulatorSet) : List AggregateSpec := s.members.map (·.spec)

/-- The accumulator at an index. -/
def accumulator? (s : AccumulatorSet) (i : Nat) : Option AnyAccumulator :=
  s.members[i]?.map (·.accumulator)

/-- Bytes reserved for the chunks of all accumulators. -/
def memoryUsage (s : AccumulatorSet) : Nat := s.budget.reserved

/-- Grows every accumulator to at least `chunks` chunks. -/
def resized (s : AccumulatorSet) (chunks : Nat) : Except Error Unit × AccumulatorSet :=
  match Member.each (fun m budget => m.step budget (.resize chunks)) s.members s.budget with
  | (result, members, budget) => (result, ⟨members, budget⟩)

/-- Feeds every accumulator its column of a batch, which has one row for each ordinal. -/
def accumulate (s : AccumulatorSet) (batch : Batch) (ordinals : List UInt32) :
    Except Error Unit × AccumulatorSet :=
  if batch.rows ≠ ordinals.length then
    (.error (.batchMismatch batch.rows ordinals.length), s)
  else
    match Member.each (fun m budget => m.feed budget batch ordinals) s.members s.budget with
    | (result, members, budget) => (result, ⟨members, budget⟩)

/-- Makes every slot as if nothing had been folded into it. Chunks are kept. -/
def reset (s : AccumulatorSet) : AccumulatorSet :=
  { s with
    members := s.members.map fun m =>
      { m with accumulator := ⟨m.accumulator.kernel, m.accumulator.accumulator.reset⟩ } }

/-- Gives everything back that the accumulators hold. -/
def free (s : AccumulatorSet) : Budget :=
  s.members.foldl (fun budget m => m.accumulator.accumulator.free budget) s.budget

/-- Performs one operation. -/
def step (s : AccumulatorSet) : SetCall → Except Error Unit × AccumulatorSet
  | .accumulate batch ordinals => s.accumulate batch ordinals
  | .resized chunks => s.resized chunks
  | .reset => (.ok (), s.reset)

/-- Performs operations one after the other, whether they fail or not. -/
def run (s : AccumulatorSet) : List SetCall → AccumulatorSet
  | [] => s
  | c :: cs => run (s.step c).2 cs

end AccumulatorSet

end GroupedExtrema
