import GroupedExtrema.Proofs.Kernels.Float
import Mathlib.Data.List.Induction

/-!
# Signed zeros in floating-point accumulators

The two zeros are one number. Neither is ahead of the other, so whichever is folded into a slot that
holds a zero replaces it: where a zero is the extremum of a group, the slot holds the zero that came
last. Its sign is that of one row and says nothing about the signs of the other zeros, and another
order of the same rows can end at the other zero.
-/

namespace GroupedExtrema

namespace Ieee

variable {f : Format}

/-- The zeros are the values in the middle of the order. -/
theorem isZero_iff {x : Ieee f} : x.isZero = true ↔ x.key = 0 := by
  have hmag : x.magnitude = 0 ↔ x.magnitude.toNat = 0 := BitVec.toNat_eq
  rw [isZero, beq_iff_eq, hmag, key]
  split <;> omega

theorem key_zero : (zero : Ieee f).key = 0 := isZero_iff.mp (by simp [isZero, zero, ofMagnitude])

end Ieee

/-- A slot whose values are numbers, the extreme one of them a zero, holds the zero that came
last. -/
def Extremum.KeepsLastZero {f : Format} (e : Extremum) (vs : List (Ieee f)) (v : Ieee f) : Prop :=
  (∀ x ∈ vs, x.isNaN = false) → (∃ m, e.IsExtreme Ieee.Le m vs ∧ m.isZero = true) →
    (vs.filter Ieee.isZero).getLast? = some v

namespace Fold

variable {f : Format} {e : Extremum} {vs : List (Ieee f)}

/-- Between a zero and a value, only the key of the value counts. -/
theorem ahead_congr_zero {z x : Ieee f} (hz : z.isZero = true) :
    (e.Ahead Ieee.Le z x ↔ e.Ahead Ieee.Le .zero x) ∧
      (e.Ahead Ieee.Le x z ↔ e.Ahead Ieee.Le x .zero) := by
  have hkey := Ieee.isZero_iff.mp hz
  cases e <;> simp only [Extremum.Ahead, Ieee.Le, hkey, Ieee.key_zero, and_self]

/-- Zero is ahead of where every slot starts. -/
theorem ahead_zero_floatIdentity (e : Extremum) :
    e.Ahead Ieee.Le .zero (floatIdentity e : Ieee f) := by
  cases e with
  | min =>
      show (Ieee.zero : Ieee f).key ≤ (Ieee.largest false : Ieee f).key
      rw [Ieee.key_zero, Ieee.key_largest, if_neg (by decide)]
      exact Int.natCast_nonneg _
  | max =>
      show (Ieee.largest true : Ieee f).key ≤ (Ieee.zero : Ieee f).key
      rw [Ieee.key_zero, Ieee.key_largest, if_pos rfl]
      exact Int.neg_nonpos_of_nonneg (Int.natCast_nonneg _)

/-- Picking through numbers that zero is ahead of ends at one that zero is ahead of. -/
theorem ahead_zero_foldl (hnum : ∀ v ∈ vs, v.isNaN = false)
    (hahead : ∀ v ∈ vs, e.Ahead Ieee.Le .zero v) :
    (vs.foldl (floatPick e) (floatIdentity e)).isNaN = false ∧
      e.Ahead Ieee.Le .zero (vs.foldl (floatPick e) (floatIdentity e)) := by
  have hs : (floatIdentity e : Ieee f).isNaN = false := Ieee.isNaN_largest _
  obtain ⟨hmem, -, -⟩ := (selects_floatPick e).foldl hs hnum
  rcases hmem with heq | hmem
  · rw [heq]
    exact ⟨hs, ahead_zero_floatIdentity e⟩
  · exact ⟨hnum _ hmem, hahead _ hmem⟩

/-- Picking through numbers that zero is ahead of, some of them zeros, ends at the last zero. -/
theorem getLast?_filter_isZero (hnum : ∀ v ∈ vs, v.isNaN = false)
    (hahead : ∀ v ∈ vs, e.Ahead Ieee.Le .zero v) (hsome : ∃ z ∈ vs, z.isZero = true) :
    (vs.filter Ieee.isZero).getLast? = some (vs.foldl (floatPick e) (floatIdentity e)) := by
  -- From the end of the list, since it is the last zero that is looked for.
  induction vs using List.reverseRecOn with
  | nil =>
      obtain ⟨z, hz, -⟩ := hsome
      exact absurd hz List.not_mem_nil
  | append_singleton vs x ih =>
      rw [List.forall_mem_append, List.forall_mem_singleton] at hnum hahead
      obtain ⟨hnum, hx⟩ := hnum
      obtain ⟨hahead, hxahead⟩ := hahead
      obtain ⟨hs, hsahead⟩ := ahead_zero_foldl hnum hahead
      rw [List.filter_append, List.foldl_append, List.foldl_cons, List.foldl_nil,
        floatPick_of_numbers hs hx]
      by_cases hxzero : x.isZero = true
      · -- Nothing is strictly ahead of a zero, so the last row replaces whatever the slot holds.
        have hreplaces := mt (keeps_iff hs hx).mp
          (not_not_intro ((ahead_congr_zero hxzero).1.mpr hsahead))
        rw [if_neg hreplaces, List.filter_cons_of_pos hxzero, List.filter_nil,
          List.getLast?_concat]
      · have hsome : ∃ z ∈ vs, z.isZero = true := by
          obtain ⟨z, hz, hzero⟩ := hsome
          rcases List.mem_append.mp hz with hz | hz
          · exact ⟨z, hz, hzero⟩
          · exact absurd (List.mem_singleton.mp hz ▸ hzero) hxzero
        have hlast := ih hnum hahead hsome
        have hszero := (List.mem_filter.mp (List.mem_of_getLast? hlast)).2
        -- The slot holds a zero, which is strictly ahead of any other number here.
        have hkeeps : keeps e (vs.foldl (floatPick e) (floatIdentity e)) x = true := by
          rw [keeps_iff hs hx, (ahead_congr_zero hszero).2]
          intro hback
          refine hxzero (Ieee.isZero_iff.mpr ?_)
          have hsame := Ieee.key_zero (f := f)
          cases e with
          | min => exact Int.le_antisymm (hsame ▸ hback) (hsame ▸ hxahead)
          | max => exact Int.le_antisymm (hsame ▸ hxahead) (hsame ▸ hback)
        rw [if_pos hkeeps, List.filter_cons_of_neg hxzero, List.filter_nil, List.append_nil]
        exact hlast

theorem keepsLastZero_foldl_floatPick (e : Extremum) (vs : List (Ieee f)) :
    e.KeepsLastZero vs (vs.foldl (floatPick e) (floatIdentity e)) := by
  intro hnum hextreme
  obtain ⟨m, hm, hzero⟩ := hextreme
  have hahead : ∀ v ∈ vs, e.Ahead Ieee.Le .zero v := fun v hv =>
    (ahead_congr_zero hzero).1.mp (hm.ahead v hv)
  exact getLast?_filter_isZero hnum hahead ⟨m, hm.mem, hzero⟩

end Fold

namespace Kernel

theorem keepsLastZero_float32 (e : Extremum) (vs : List Float32Value) :
    e.KeepsLastZero vs (contents e float32 vs).1 := by
  rw [contents_eq]
  exact Fold.keepsLastZero_foldl_floatPick e vs

theorem keepsLastZero_float64 (e : Extremum) (vs : List Float64Value) :
    e.KeepsLastZero vs (contents e float64 vs).1 := by
  rw [contents_eq]
  exact Fold.keepsLastZero_foldl_floatPick e vs

end Kernel

namespace Accumulator

/-- After any run, also one with failing calls, a slot of a floating-point accumulator for which
only numbers have been accumulated since the last reset, the extreme one a zero, holds the zero that
came last, with its sign. -/
theorem zeros_meet_run (e : Extremum) (l : ChunkLayout) (budget : Budget) {calls : List Call}
    (hcalls : ∀ c ∈ calls, c.WellFormed) :
    (∃ a, create .float32 e .float32 l = .ok a ∧
      (a.run budget calls).1.Meets l (gathered (Kernel.entries .float32) (a.history budget calls))
        e.KeepsLastZero) ∧
    ∃ a, create .float64 e .float64 l = .ok a ∧
      (a.run budget calls).1.Meets l (gathered (Kernel.entries .float64) (a.history budget calls))
        e.KeepsLastZero := by
  constructor
  · exact exists_create_meets_run e l rfl budget hcalls (Kernel.keepsLastZero_float32 e)
  · exact exists_create_meets_run e l rfl budget hcalls (Kernel.keepsLastZero_float64 e)

/-- Of a positive zero and a negative one in a later batch, the maximum is the negative one. -/
theorem zeros_meet_run_of_two_batches :
    ∃ a, create .float32 .max .float32 ⟨5, by decide, by decide⟩ = .ok a ∧
      (a.run (.ofLimit none) [.accumulate (.float32 (.ofValues #[.zero])) [9],
        .accumulate (.float32 (.ofValues #[.neg .zero, .infinity true])) [9, 9]]).1.scalar 9 =
          .ok (.float32 (.neg .zero)) := by
  have hcalls : ∀ c ∈ [Call.accumulate (.float32 (.ofValues #[.zero])) [9],
      .accumulate (.float32 (.ofValues #[.neg .zero, .infinity true])) [9, 9]], c.WellFormed := by
    decide
  obtain ⟨⟨a, ha, hmeets⟩, -⟩ :=
    zeros_meet_run .max ⟨5, by decide, by decide⟩ (.ofLimit none) hcalls
  refine ⟨a, ha, ?_⟩
  obtain rfl := Except.ok.inj ha
  obtain ⟨v, hv, hscalar⟩ := hmeets.exists_scalar_eq (o := 9) (by decide +kernel)
    (show _ = [(.zero : Float32Value), .neg .zero, .infinity true] by decide +kernel) (by decide)
  have hextreme : Extremum.max.IsExtreme Ieee.Le (.zero : Float32Value)
      [.zero, .neg .zero, .infinity true] := by
    refine ⟨List.mem_cons_self, ?_⟩
    simp only [Extremum.Ahead, Ieee.Le]
    decide
  obtain rfl := Option.some.inj (hv (by decide) ⟨_, hextreme, by decide⟩)
  exact hscalar

/-- The minimum of both zeros is the negative one only if that came last. -/
theorem float_min_of_zeros :
    ∃ a, create .float64 .min .float64 ⟨5, by decide, by decide⟩ = .ok a ∧
      (∀ r ∈ a.history (.ofLimit none)
        [.accumulate (.float64 (.ofValues #[.neg .zero, .zero])) [0, 0]], r.2 = .ok ()) ∧
      gathered (Kernel.entries .float64) (a.history (.ofLimit none)
        [.accumulate (.float64 (.ofValues #[.neg .zero, .zero])) [0, 0]]) 0 = [.neg .zero, .zero] ∧
      (a.run (.ofLimit none)
        [.accumulate (.float64 (.ofValues #[.neg .zero, .zero])) [0, 0]]).1.scalar 0 =
          .ok (.float64 .zero) ∧
      (a.run (.ofLimit none)
        [.accumulate (.float64 (.ofValues #[.zero, .neg .zero])) [0, 0]]).1.scalar 0 =
          .ok (.float64 (.neg .zero)) ∧
      (.neg .zero : Float64Value) ≠ .zero := by
  exact ⟨_, rfl, by decide +kernel, by decide +kernel, rfl, rfl, by decide⟩

end Accumulator

end GroupedExtrema
