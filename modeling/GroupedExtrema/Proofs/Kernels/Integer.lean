import GroupedExtrema.Proofs.Run

/-!
# Runs of integer accumulators

A slot of an integer accumulator holds the least or greatest of its values. Before there is one it
holds the other end of the type, which no value is beyond, so the first value replaces it or equals
it.
-/

namespace GroupedExtrema

/-- What a slot should hold: an extreme one of its values, or for want of values the largest number
of the type for the minimum and the smallest one for the maximum. -/
structure Extremum.OfIntegers {α : Type} [LE α] (e : Extremum) (smallest largest : α)
    (vs : List α) (v : α) : Prop where
  of_nil : vs = [] → v = match e with
    | .min => largest
    | .max => smallest
  of_ne_nil : vs ≠ [] → e.IsExtreme (· ≤ ·) v vs

/-- Picking through the values from the other end of the type on gives what a slot should hold. -/
theorem Extremum.ofIntegers_foldl_pick {α : Type} [LE α] [Min α] [Max α] [Std.IsLinearOrder α]
    [Std.LawfulOrderMin α] [Std.LawfulOrderMax α] {e : Extremum} {smallest largest s : α}
    (hs : s = match e with
      | .min => largest
      | .max => smallest)
    (bottom : ∀ v, e.Ahead (· ≤ ·) v s) (vs : List α) :
    e.OfIntegers smallest largest vs (vs.foldl e.pick s) where
  of_nil := by
    rintro rfl
    exact hs
  of_ne_nil := isExtreme_foldl_pick bottom

theorem Kernel.ofIntegers_int32 (e : Extremum) (vs : List Int32) :
    e.OfIntegers Int32.minValue Int32.maxValue vs (contents e int32 vs).1 := by
  rw [contents_eq]
  exact Extremum.ofIntegers_foldl_pick (by cases e <;> rfl) (Fold.ahead_int32Identity e) vs

theorem Kernel.ofIntegers_int64 (e : Extremum) (vs : List Int64) :
    e.OfIntegers Int64.minValue Int64.maxValue vs (contents e int64 vs).1 := by
  rw [contents_eq]
  exact Extremum.ofIntegers_foldl_pick (by cases e <;> rfl) (Fold.ahead_int64Identity e) vs

namespace Accumulator

/-- After any run, also one with failing calls, every slot of an integer accumulator holds an
extreme one of the values accumulated for it since the last reset, and reads back as it. -/
theorem integers_meet_run (e : Extremum) (l : ChunkLayout) (budget : Budget) {calls : List Call}
    (hcalls : ∀ c ∈ calls, c.WellFormed) :
    (∃ a, create .int32 e .int32 l = .ok a ∧
      (a.run budget calls).1.Meets l (gathered (Kernel.entries .int32) (a.history budget calls))
        (e.OfIntegers Int32.minValue Int32.maxValue)) ∧
    ∃ a, create .int64 e .int64 l = .ok a ∧
      (a.run budget calls).1.Meets l (gathered (Kernel.entries .int64) (a.history budget calls))
        (e.OfIntegers Int64.minValue Int64.maxValue) := by
  constructor
  · exact exists_create_meets_run e l rfl budget hcalls (Kernel.ofIntegers_int32 e)
  · exact exists_create_meets_run e l rfl budget hcalls (Kernel.ofIntegers_int64 e)

/-- Only what comes after the reset counts; the null row and the call that is too short do not. -/
theorem integers_meet_run_after_reset :
    ∃ a, create .int32 .min .int32 ⟨5, by decide, by decide⟩ = .ok a ∧
      (a.run (.ofLimit none) [.accumulate (.int32 (.ofValues #[-9])) [40], .reset,
        .accumulate (.int32 (.ofOptions (-7) [some 5, none, some 3])) [40, 40, 40],
        .accumulate (.int32 (.ofValues #[])) [40]]).1.scalar 40 = .ok (.int32 3) := by
  have hcalls : ∀ c ∈ [Call.accumulate (.int32 (.ofValues #[-9])) [40], .reset,
      .accumulate (.int32 (.ofOptions (-7) [some 5, none, some 3])) [40, 40, 40],
      .accumulate (.int32 (.ofValues #[])) [40]], c.WellFormed := by
    decide
  obtain ⟨⟨a, ha, hmeets⟩, -⟩ :=
    integers_meet_run .min ⟨5, by decide, by decide⟩ (.ofLimit none) hcalls
  refine ⟨a, ha, ?_⟩
  obtain rfl := Except.ok.inj ha
  obtain ⟨v, hv, hscalar⟩ := hmeets.exists_scalar_eq (o := 40) (by decide +kernel)
    (show _ = [(5 : Int32), 3] by decide +kernel) (by decide)
  have hextreme := hv.of_ne_nil (by decide)
  have hle : v ≤ 3 := hextreme.ahead 3 (by decide)
  have hmem : v = 5 ∨ v = 3 := by simpa using hextreme.mem
  rcases hmem with rfl | rfl
  · exact absurd hle (by decide)
  · exact hscalar

end Accumulator

end GroupedExtrema
