import GroupedExtrema.Proofs.Run

/-!
# Runs of boolean accumulators

A slot of a boolean accumulator holds the conjunction of its truth values for the minimum and their
disjunction for the maximum. Slots share words, both of values and of validity; a row changes no
place of a word but that of its own slot.
-/

namespace GroupedExtrema

/-- The least or greatest of some truth values; of none, the one that is no further. -/
def Extremum.ofBooleans (e : Extremum) (vs : List Bool) : Bool :=
  match e with
  | .min => vs.all id
  | .max => vs.any id

theorem Kernel.contents_boolean (e : Extremum) (vs : List Bool) :
    (contents e boolean vs).1 = e.ofBooleans vs := by
  rw [contents_eq]
  show vs.foldl e.pick ((Fold.booleanIdentity e).getLsbD 0) = _
  rw [Fold.getLsbD_booleanIdentity e (by decide), Fold.foldl_pick_bool]
  cases e with
  | min => exact Bool.true_and _
  | max => exact Bool.false_or _

namespace Accumulator

/-- After any run, also one with failing calls, every bit of a boolean accumulator is the
conjunction or disjunction of the truth values accumulated for it since the last reset. On the way
no row ever changes value or validity of another slot. -/
theorem booleans_meet_run (e : Extremum) (l : ChunkLayout) (budget : Budget) {calls : List Call}
    (hcalls : ∀ c ∈ calls, c.WellFormed) :
    (∃ a, create .boolean e .boolean l = .ok a ∧
      (a.run budget calls).1.Meets l (gathered (Kernel.entries .boolean) (a.history budget calls))
        fun vs v => v = e.ofBooleans vs) ∧
    ∀ (t t' : SlotTable SlotWord) (o : UInt32) (row : Bool × Bool),
      Kernel.boolean.foldRow e t o row = some t' →
        ∀ n ≠ o.toNat, Kernel.boolean.slot? t' n = Kernel.boolean.slot? t n := by
  constructor
  · exact exists_create_meets_run e l rfl budget hcalls (Kernel.contents_boolean e)
  · intro t t' o row h n hn
    exact Kernel.slot?_foldRow_other h hn

/-- Neighbours in a word: one slot holds a false, the next one only a null and a true. -/
theorem booleans_meet_run_of_neighbours :
    ∃ a, create .boolean .min .boolean ⟨5, by decide, by decide⟩ = .ok a ∧
      (a.run (.ofLimit none) [.resize 1,
        .accumulate (.boolean (.ofOptions [some true, none])) [7, 7],
        .accumulate (.boolean (.ofOptions [some false])) [6]]).1.scalar 7 =
          .ok (.boolean true) := by
  have hcalls : ∀ c ∈ [Call.resize 1,
      .accumulate (.boolean (.ofOptions [some true, none])) [7, 7],
      .accumulate (.boolean (.ofOptions [some false])) [6]], c.WellFormed := by
    decide
  obtain ⟨⟨a, ha, hmeets⟩, -⟩ :=
    booleans_meet_run .min ⟨5, by decide, by decide⟩ (.ofLimit none) hcalls
  refine ⟨a, ha, ?_⟩
  obtain rfl := Except.ok.inj ha
  obtain ⟨v, hv, hscalar⟩ := hmeets.exists_scalar_eq (o := 7) (by decide +kernel)
    (show _ = [true] by decide +kernel) (by decide)
  rw [hscalar, hv]
  rfl

end Accumulator

end GroupedExtrema
