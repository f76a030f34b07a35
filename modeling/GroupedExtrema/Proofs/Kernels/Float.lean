import GroupedExtrema.Proofs.Run

/-!
# Runs of floating-point accumulators

A slot of a floating-point accumulator is NaN as soon as one of its values is. Otherwise it equals,
as a number, the least or greatest of its values, unless all of them are the infinity that lies
beyond the identity.
-/

namespace GroupedExtrema

/-- What a slot should hold: the finite value furthest from the extremum for want of values, NaN if
one of its values is NaN, and a number that equals an extreme one of its values if they are numbers
and not all of them are the infinity beyond that finite value. Both the finite value and the
infinity are positive for the minimum and negative for the maximum. -/
structure Extremum.OfFloats {f : Format} (e : Extremum) (vs : List (Ieee f)) (v : Ieee f) :
    Prop where
  of_nil : vs = [] → v = .largest (e == .max)
  isNaN_iff : v.isNaN = true ↔ ∃ x ∈ vs, x.isNaN = true
  of_numbers : (∀ x ∈ vs, x.isNaN = false) → (∃ x ∈ vs, x ≠ .infinity (e == .max)) →
    ∃ m, e.IsExtreme Ieee.Le m vs ∧ v.numEq m = true

/-- Combining floating-point values from the identity on gives what a slot should hold. -/
theorem Fold.ofFloats_foldl_floatPick {f : Format} [f.Proper] (e : Extremum) (vs : List (Ieee f)) :
    e.OfFloats vs (vs.foldl (floatPick e) (floatIdentity e)) where
  of_nil := by
    rintro rfl
    rfl
  isNaN_iff := by
    rw [isNaN_foldl_floatPick, floatIdentity, Ieee.isNaN_largest, Bool.false_or, List.any_eq_true]
  of_numbers := foldl_floatPick

theorem Kernel.ofFloats_float32 (e : Extremum) (vs : List Float32Value) :
    e.OfFloats vs (contents e float32 vs).1 := by
  rw [contents_eq]
  exact Fold.ofFloats_foldl_floatPick e vs

theorem Kernel.ofFloats_float64 (e : Extremum) (vs : List Float64Value) :
    e.OfFloats vs (contents e float64 vs).1 := by
  rw [contents_eq]
  exact Fold.ofFloats_foldl_floatPick e vs

namespace Accumulator

/-- After any run, also one with failing calls, every slot of a floating-point accumulator is NaN
exactly if one of the values accumulated for it since the last reset is, and otherwise equals an
extreme one of them, unless all are the infinity beyond the identity. -/
theorem floats_meet_run (e : Extremum) (l : ChunkLayout) (budget : Budget) {calls : List Call}
    (hcalls : ∀ c ∈ calls, c.WellFormed) :
    (∃ a, create .float32 e .float32 l = .ok a ∧
      (a.run budget calls).1.Meets l (gathered (Kernel.entries .float32) (a.history budget calls))
        e.OfFloats) ∧
    ∃ a, create .float64 e .float64 l = .ok a ∧
      (a.run budget calls).1.Meets l (gathered (Kernel.entries .float64) (a.history budget calls))
        e.OfFloats := by
  constructor
  · exact exists_create_meets_run e l rfl budget hcalls (Kernel.ofFloats_float32 e)
  · exact exists_create_meets_run e l rfl budget hcalls (Kernel.ofFloats_float64 e)

/-- The NaN stored under the null row does not count, and an infinity among other numbers does no
harm. -/
theorem floats_meet_run_of_null_nan :
    ∃ a, create .float32 .min .float32 ⟨5, by decide, by decide⟩ = .ok a ∧
      ∃ v, (a.run (.ofLimit none) [.accumulate (.float32 (.ofOptions .nan
        [some (.infinity false), none, some .zero])) [9, 9, 9]]).1.scalar 9 = .ok (.float32 v) ∧
          v.numEq .zero = true := by
  have hcalls : ∀ c ∈ [Call.accumulate (.float32 (.ofOptions .nan
      [some (.infinity false), none, some .zero])) [9, 9, 9]], c.WellFormed := by
    decide
  obtain ⟨⟨a, ha, hmeets⟩, -⟩ :=
    floats_meet_run .min ⟨5, by decide, by decide⟩ (.ofLimit none) hcalls
  refine ⟨a, ha, ?_⟩
  obtain rfl := Except.ok.inj ha
  obtain ⟨v, hv, hscalar⟩ := hmeets.exists_scalar_eq (o := 9) (by decide +kernel)
    (show _ = [(.infinity false : Float32Value), .zero] by decide +kernel) (by decide)
  obtain ⟨m, hextreme, heq⟩ := hv.of_numbers (by decide) (by decide)
  refine ⟨v, hscalar, ?_⟩
  have hle : m.Le .zero := hextreme.ahead .zero (by simp)
  have hmem : m = .infinity false ∨ m = .zero := by simpa using hextreme.mem
  rcases hmem with rfl | rfl
  · exact absurd hle (by unfold Ieee.Le; decide)
  · exact heq

end Accumulator

/-! ### Values that are attained -/

/-- How the value of a slot that is a number comes from its values: it equals one of them, unless
all of them are the infinity beyond the finite value that a slot starts with, which then stays. -/
structure Extremum.Attains {f : Format} (e : Extremum) (vs : List (Ieee f)) (v : Ieee f) :
    Prop where
  of_ne : (∃ x ∈ vs, x ≠ .infinity (e == .max)) → ∃ x ∈ vs, v.numEq x = true
  of_forall_eq : (∀ x ∈ vs, x = .infinity (e == .max)) → v = .largest (e == .max)

/-- Combining floating-point values gives NaN or attains one of them. -/
theorem Fold.attains_foldl_floatPick {f : Format} [f.Proper] (e : Extremum) (vs : List (Ieee f))
    (hnum : (vs.foldl (floatPick e) (floatIdentity e)).isNaN = false) :
    e.Attains vs (vs.foldl (floatPick e) (floatIdentity e)) where
  of_ne := by
    intro hne
    rw [isNaN_foldl_floatPick, Bool.or_eq_false_iff, List.any_eq_false] at hnum
    obtain ⟨m, hextreme, heq⟩ := foldl_floatPick
      (fun x hx => Bool.eq_false_iff.mpr (hnum.2 x hx)) hne
    exact ⟨m, hextreme.mem, heq⟩
  of_forall_eq := foldl_floatPick_infinity

theorem Kernel.attains_float32 (e : Extremum) (vs : List Float32Value) :
    (contents e float32 vs).1.isNaN = false → e.Attains vs (contents e float32 vs).1 := by
  rw [contents_eq]
  exact Fold.attains_foldl_floatPick e vs

theorem Kernel.attains_float64 (e : Extremum) (vs : List Float64Value) :
    (contents e float64 vs).1.isNaN = false → e.Attains vs (contents e float64 vs).1 := by
  rw [contents_eq]
  exact Fold.attains_foldl_floatPick e vs

namespace Accumulator

/-- After any run, also one with failing calls, a floating-point scalar that is a number equals one
of the values accumulated for its ordinal since the last reset. If all of them are the infinity
beyond the identity it is the identity. -/
theorem floats_attained_run (e : Extremum) (l : ChunkLayout) (budget : Budget) {calls : List Call}
    (hcalls : ∀ c ∈ calls, c.WellFormed) :
    (∃ a, create .float32 e .float32 l = .ok a ∧ ∀ o v,
      (a.run budget calls).1.scalar o = .ok (.float32 v) → v.isNaN = false →
        gathered (Kernel.entries .float32) (a.history budget calls) o.toNat ≠ [] ∧
          e.Attains (gathered (Kernel.entries .float32) (a.history budget calls) o.toNat) v) ∧
    ∃ a, create .float64 e .float64 l = .ok a ∧ ∀ o v,
      (a.run budget calls).1.scalar o = .ok (.float64 v) → v.isNaN = false →
        gathered (Kernel.entries .float64) (a.history budget calls) o.toNat ≠ [] ∧
          e.Attains (gathered (Kernel.entries .float64) (a.history budget calls) o.toNat) v := by
  constructor
  · obtain ⟨a, ha, hmeets⟩ : ∃ a, create .float32 e .float32 l = .ok a ∧
        (a.run budget calls).1.Meets l
          (gathered (Kernel.entries .float32) (a.history budget calls))
          fun vs v => v.isNaN = false → e.Attains vs v :=
      exists_create_meets_run e l rfl budget hcalls (Kernel.attains_float32 e)
    refine ⟨a, ha, fun o v hscalar hnum => ?_⟩
    obtain ⟨hne, hattains⟩ := hmeets.spec_of_scalar hscalar
    exact ⟨hne, hattains hnum⟩
  · obtain ⟨a, ha, hmeets⟩ : ∃ a, create .float64 e .float64 l = .ok a ∧
        (a.run budget calls).1.Meets l
          (gathered (Kernel.entries .float64) (a.history budget calls))
          fun vs v => v.isNaN = false → e.Attains vs v :=
      exists_create_meets_run e l rfl budget hcalls (Kernel.attains_float64 e)
    refine ⟨a, ha, fun o v hscalar hnum => ?_⟩
    obtain ⟨hne, hattains⟩ := hmeets.spec_of_scalar hscalar
    exact ⟨hne, hattains hnum⟩

/-- Next to another number, an infinity beyond the identity does not count. -/
theorem floats_attained_run_of_infinity :
    ∃ a, create .float64 .max .float64 ⟨5, by decide, by decide⟩ = .ok a ∧ ∃ v,
      (a.run (.ofLimit none) [.accumulate (.float64 (.ofValues #[.infinity true, .zero]))
        [9, 9]]).1.scalar 9 = .ok (.float64 v) ∧
      ∃ x ∈ [(.infinity true : Float64Value), .zero], v.numEq x = true := by
  have hcalls : ∀ c ∈ [Call.accumulate (.float64 (.ofValues #[.infinity true, .zero])) [9, 9]],
      c.WellFormed := by
    decide
  obtain ⟨-, a, ha, hattained⟩ :=
    floats_attained_run .max ⟨5, by decide, by decide⟩ (.ofLimit none) hcalls
  refine ⟨a, ha, .zero, ?_⟩
  obtain rfl := Except.ok.inj ha
  obtain ⟨-, hattains⟩ := hattained 9 .zero rfl (by decide)
  exact ⟨rfl, hattains.of_ne (by decide +kernel)⟩

/-- A minimum over nothing but positive infinity is none of its values: the slot keeps the largest
finite value. -/
theorem float_min_of_infinity :
    ∃ a, create .float64 .min .float64 ⟨5, by decide, by decide⟩ = .ok a ∧
      (∀ r ∈ a.history (.ofLimit none)
        [.accumulate (.float64 (.ofValues #[.infinity false])) [0]], r.2 = .ok ()) ∧
      (a.run (.ofLimit none) [.accumulate (.float64 (.ofValues #[.infinity false])) [0]]).1.scalar
        0 = .ok (.float64 (.largest false)) ∧
      (Ieee.largest false : Float64Value).isNaN = false ∧
      ¬ ∃ x ∈ gathered (Kernel.entries .float64) (a.history (.ofLimit none)
          [.accumulate (.float64 (.ofValues #[.infinity false])) [0]]) 0,
        (Ieee.largest false : Float64Value).numEq x = true := by
  refine ⟨_, rfl, by decide +kernel, rfl, by decide, ?_⟩
  rintro ⟨x, hx, heq⟩
  obtain rfl : x = .infinity false := List.mem_singleton.mp hx
  exact absurd heq (by decide)

end Accumulator

end GroupedExtrema
