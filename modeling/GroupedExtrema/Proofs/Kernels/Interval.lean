import GroupedExtrema.Proofs.Run

/-!
# Runs of interval accumulators

A slot of an interval accumulator holds the storage word of the least or greatest of its intervals,
days first and then milliseconds. The words are folded by their keys, but what a slot holds is
always a word that was put into it, or the one it started with; the payload of a null row is never
written.
-/

namespace GroupedExtrema

/-- What the word of a slot should be: that of an extreme one of its intervals, or for want of
intervals that of the one with the largest components for the minimum and with the smallest ones for
the maximum. -/
structure Extremum.OfIntervals (e : Extremum) (is : List Interval) (w : BitVec 64) : Prop where
  of_nil : is = [] → w = match e with
    | .min => Interval.toStorage ⟨Int32.maxValue, Int32.maxValue⟩
    | .max => Interval.toStorage ⟨Int32.minValue, Int32.minValue⟩
  of_ne_nil : is ≠ [] → ∃ i, e.IsExtreme Interval.Le i is ∧ w = i.toStorage ∧
    Interval.ofStorage w = i

/-- The rows of a column as optional intervals. Columns of other types have none. -/
def Column.intervals : Column → List (Option Interval)
  | null n => List.replicate n none
  | interval r => r.toOptions
  | _ => []

theorem Kernel.entries_intervalDayTime (c : Column) :
    entries intervalDayTime c = c.intervals.map (Option.map Interval.toStorage) := by
  cases c with
  | null n => simp [entries, Column.intervals]
  | _ => rfl

theorem Kernel.ofIntervals_intervalDayTime (e : Extremum) (is : List Interval) :
    e.OfIntervals is (contents e intervalDayTime (is.map Interval.toStorage)).1 where
  of_nil := by
    rintro rfl
    cases e <;> rfl
  of_ne_nil := by
    intro hne
    obtain ⟨i, hi, hfold⟩ := Fold.foldl_intervalPick e hne
    rw [contents_eq]
    refine ⟨i, hi, hfold, ?_⟩
    show Interval.ofStorage ((is.map Interval.toStorage).foldl (Fold.intervalPick e)
      (Fold.intervalIdentity e)) = i
    rw [hfold, Interval.ofStorage_toStorage]

namespace Accumulator

/-- After any run, also one with failing calls, every slot of an interval accumulator holds the word
of an extreme one of the intervals accumulated for it since the last reset, and reads back as that
interval. On the way no null row ever changes the table. -/
theorem intervals_meet_run (e : Extremum) (l : ChunkLayout) (budget : Budget) {calls : List Call}
    (hcalls : ∀ c ∈ calls, c.WellFormed) :
    (∃ a, create .intervalDayTime e .intervalDayTime l = .ok a ∧
      (a.run budget calls).1.Meets l (gathered Column.intervals (a.history budget calls))
        e.OfIntervals) ∧
    ∀ (t t' : SlotTable (BitVec 64)) (o : UInt32) (payload : BitVec 64),
      Kernel.intervalDayTime.foldRow e t o (payload, false) = some t' → t' = t := by
  constructor
  · exact exists_create_meets_run_map e l rfl budget hcalls Kernel.entries_intervalDayTime
      (Kernel.ofIntervals_intervalDayTime e)
  · intro t t' o payload h
    exact Kernel.eq_of_foldRow_null h

/-- Equal days leave the decision to the signed milliseconds; the payload of the null row, which is
less than both, does not count. -/
theorem intervals_meet_run_of_equal_days :
    ∃ a, create .intervalDayTime .min .intervalDayTime ⟨5, by decide, by decide⟩ = .ok a ∧
      (a.run (.ofLimit none) [.accumulate (.interval (.ofOptions ⟨-2, 0⟩
        [some ⟨-1, 5⟩, none, some ⟨-1, -5⟩])) [3, 3, 3]]).1.scalar 3 =
          .ok (.interval ⟨-1, -5⟩) := by
  have hcalls : ∀ c ∈ [Call.accumulate (.interval (.ofOptions ⟨-2, 0⟩
      [some ⟨-1, 5⟩, none, some ⟨-1, -5⟩])) [3, 3, 3]], c.WellFormed := by
    decide
  obtain ⟨⟨a, ha, hmeets⟩, -⟩ :=
    intervals_meet_run .min ⟨5, by decide, by decide⟩ (.ofLimit none) hcalls
  refine ⟨a, ha, ?_⟩
  obtain rfl := Except.ok.inj ha
  obtain ⟨v, hv, hscalar⟩ := hmeets.exists_scalar_eq (o := 3) (by decide +kernel)
    (show _ = [(⟨-1, 5⟩ : Interval), ⟨-1, -5⟩] by decide +kernel) (by decide)
  obtain ⟨i, hextreme, rfl, -⟩ := hv.of_ne_nil (by decide)
  have hle : i.Le ⟨-1, -5⟩ := hextreme.ahead ⟨-1, -5⟩ (by decide)
  have hmem : i = ⟨-1, 5⟩ ∨ i = ⟨-1, -5⟩ := by simpa using hextreme.mem
  rcases hmem with rfl | rfl
  · exact absurd hle (by unfold Interval.Le; decide)
  · exact hscalar

end Accumulator

end GroupedExtrema
