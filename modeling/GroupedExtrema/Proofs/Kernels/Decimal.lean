import GroupedExtrema.Proofs.Decimal
import GroupedExtrema.Proofs.Run

/-!
# Runs of decimal accumulators

A decimal accumulator compares doubles, not the decimals they were read from. Reading keeps the
order of the decimals of one scale, so the double of the least decimal is the least double, and the
other way round for the greatest one. Decimals that are read as one double make no difference.

No double read from a decimal is NaN, infinite or negative zero, so the two equal doubles are one,
and the finite value a slot starts with is beyond all of them.
-/

namespace GroupedExtrema

/-- The rows of a column as optional unscaled decimals. Columns of other types have none. -/
def Column.unscaled : Column → List (Option Unscaled)
  | null n => List.replicate n none
  | decimal128 _ r => r.toOptions
  | _ => []

/-- The column has the scale, if it is one of decimals. -/
def Column.HasScale (scale : Int8) : Column → Prop
  | decimal128 t _ => t.scale = scale
  | _ => True

instance (scale : Int8) : DecidablePred (Column.HasScale scale)
  | .decimal128 t _ => inferInstanceAs (Decidable (t.scale = scale))
  | .null _ | .boolean _ | .int32 _ | .int64 _ | .float32 _ | .float64 _ | .interval _ =>
    inferInstanceAs (Decidable True)

theorem Kernel.entries_decimal128 {scale : Int8} {c : Column} (h : c.HasScale scale) :
    entries decimal128 c =
      c.unscaled.map (Option.map (Decimal.toDouble (Decimal.divisor scale))) := by
  cases c with
  | null n => simp [entries, Column.unscaled]
  | decimal128 t r =>
      obtain rfl : t.scale = scale := h
      rfl
  | _ => rfl

/-- A list of decimals has an extreme one. -/
theorem Extremum.exists_isExtreme_unscaled (e : Extremum) {vs : List Unscaled} (hne : vs ≠ []) :
    ∃ m, e.IsExtreme Decimal.Le m vs := by
  have hints : vs.map BitVec.toInt ≠ [] := by simpa using hne
  obtain ⟨i, hmem, hall⟩ := e.exists_isExtreme hints
  obtain ⟨m, hm, rfl⟩ := List.mem_map.mp hmem
  refine ⟨m, hm, fun v hv => ?_⟩
  have hahead := hall v.toInt (List.mem_map_of_mem hv)
  cases e <;> exact hahead

namespace Fold

variable {scale : Int8} {vs : List Unscaled}

theorem isNaN_of_mem_toDouble {x : Float64Value}
    (hx : x ∈ vs.map (Decimal.toDouble (Decimal.divisor scale))) : x.isNaN = false := by
  obtain ⟨v, -, rfl⟩ := List.mem_map.mp hx
  exact Ieee.isNaN_of_lt (Decimal.toNat_toDouble_lt scale v)

/-- Picking through doubles read from decimals never ends at negative zero. -/
theorem foldl_floatPick_ne_neg_zero (e : Extremum) (scale : Int8) (vs : List Unscaled) :
    (vs.map (Decimal.toDouble (Decimal.divisor scale))).foldl (floatPick e) (floatIdentity e) ≠
      .neg .zero := by
  have hs : (floatIdentity e : Float64Value).isNaN = false := Ieee.isNaN_largest _
  have hvs : ∀ x ∈ vs.map (Decimal.toDouble (Decimal.divisor scale)), x.isNaN = false :=
    fun _ => isNaN_of_mem_toDouble
  obtain ⟨hmem, -⟩ := (selects_floatPick e).foldl hs hvs
  rcases hmem with heq | hmem
  · rw [heq]
    cases e <;> decide
  · obtain ⟨v, -, heq⟩ := List.mem_map.mp hmem
    rw [← heq]
    exact Decimal.toDouble_ne_neg_zero scale v

/-- Picking through doubles read from decimals ends at the one read from an extreme decimal. -/
theorem foldl_floatPick_toDouble (e : Extremum) (scale : Int8) (hne : vs ≠ []) :
    ∃ m, e.IsExtreme Decimal.Le m vs ∧
      (vs.map (Decimal.toDouble (Decimal.divisor scale))).foldl (floatPick e) (floatIdentity e) =
        Decimal.toDouble (Decimal.divisor scale) m := by
  obtain ⟨m, hm⟩ := e.exists_isExtreme_unscaled hne
  have hread := hm.map fun _ _ => Decimal.toDouble_mono scale
  have hfinite : Decimal.toDouble (Decimal.divisor scale) m ≠ .infinity (e == .max) := by
    intro heq
    have hlt := Decimal.toNat_toDouble_lt scale m
    rw [heq, Ieee.infinity, Ieee.toNat_ofMagnitude _ (Format.infinity_lt _)] at hlt
    exact Nat.lt_irrefl _ hlt
  obtain ⟨x, hx, heq⟩ := foldl_floatPick (e := e) (fun _ => isNaN_of_mem_toDouble)
    ⟨_, hread.mem, hfinite⟩
  -- Both doubles are extreme, so neither is beyond the other.
  have hkey : x.key = (Decimal.toDouble (Decimal.divisor scale) m).key := by
    have hforth := hx.ahead _ hread.mem
    have hback := hread.ahead _ hx.mem
    cases e with
    | min => exact Int.le_antisymm hforth hback
    | max => exact Int.le_antisymm hback hforth
  obtain ⟨-, -, hfold⟩ := Ieee.numEq_iff.mp heq
  exact ⟨m, hm, Ieee.eq_of_key_eq (foldl_floatPick_ne_neg_zero e scale vs)
    (Decimal.toDouble_ne_neg_zero scale m) (hfold.trans hkey)⟩

end Fold

namespace Accumulator

/-- After any run, also one with failing calls, in which all decimals have one scale, an ordinal for
which decimals have been accumulated since the last reset reads back as the double of the least or
greatest of them, which is a finite number. -/
theorem decimals_meet_run (e : Extremum) (l : ChunkLayout) (t : DecimalType) (scale : Int8)
    (budget : Budget) {calls : List Call} (hcalls : ∀ c ∈ calls, c.WellFormed)
    (hscale : ∀ c ∈ calls, c.Feeds (Column.HasScale scale)) :
    ∃ a, create .decimal128 e (.decimal128 t) l = .ok a ∧ ∀ o : UInt32,
      gathered Column.unscaled (a.history budget calls) o.toNat ≠ [] →
        ∃ m x, e.IsExtreme Decimal.Le m
            (gathered Column.unscaled (a.history budget calls) o.toNat) ∧
          x = Decimal.toDouble (Decimal.divisor scale) m ∧
          (a.run budget calls).1.scalar o = .ok (.float64 x) ∧
          x.isNaN = false ∧ x.isInfinite = false := by
  obtain ⟨a, ha, hholds⟩ := exists_create_holds_run (k := .decimal128) e l (t := .decimal128 t) rfl
    budget hcalls
  refine ⟨a, ha, fun o hne => ?_⟩
  have hgathered : gathered (Kernel.entries .decimal128) (a.history budget calls) o.toNat =
      (gathered Column.unscaled (a.history budget calls) o.toNat).map
        (Decimal.toDouble (Decimal.divisor scale)) :=
    gathered_map_of_feeds (fun r hr => (hscale r.1 (mem_of_mem_history hr)).imp
      fun _ => Kernel.entries_decimal128) o.toNat
  have hvalues : gathered (Kernel.entries .decimal128) (a.history budget calls) o.toNat ≠ [] := by
    rw [hgathered]
    simpa using hne
  have hchunk : (l.slot o.toNat).chunk < (a.run budget calls).1.size :=
    Nat.not_le.mp fun hle => hvalues (hholds.eq_nil o.toNat hle)
  obtain ⟨m, hm, hfold⟩ := Fold.foldl_floatPick_toDouble e scale hne
  have hlt := Decimal.toNat_toDouble_lt scale m
  refine ⟨m, _, hm, rfl, ?_, Ieee.isNaN_of_lt hlt, Ieee.isInfinite_of_lt hlt⟩
  rw [hholds.scalar_eq, if_pos hchunk, if_neg hvalues, Kernel.contents_eq, hgathered]
  exact congrArg (fun x => Except.ok (Scalar.float64 x)) hfold

/-- Two decimals that are read as one double, and a larger payload under a null row. -/
theorem decimals_meet_run_of_one_double :
    ∃ a, create .decimal128 .max (.decimal128 ⟨38, 0⟩) ⟨5, by decide, by decide⟩ = .ok a ∧
      (a.run (.ofLimit none) [.accumulate (.decimal128 ⟨38, -2⟩ (.ofOptions 9007199254740994
        [some 9007199254740993, none, some 9007199254740992])) [7, 7, 7]]).1.scalar 7 =
          .ok (.float64 (Decimal.toDouble (Decimal.divisor (-2)) 9007199254740993)) := by
  have hcalls : ∀ c ∈ [Call.accumulate (.decimal128 ⟨38, -2⟩ (.ofOptions 9007199254740994
      [some 9007199254740993, none, some 9007199254740992])) [7, 7, 7]],
      c.WellFormed ∧ c.Feeds (Column.HasScale (-2)) := by
    decide
  obtain ⟨a, ha, hscalars⟩ := decimals_meet_run .max ⟨5, by decide, by decide⟩ ⟨38, 0⟩ (-2)
    (.ofLimit none) (fun c hc => (hcalls c hc).1) fun c hc => (hcalls c hc).2
  refine ⟨a, ha, ?_⟩
  obtain rfl := Except.ok.inj ha
  obtain ⟨m, x, hextreme, rfl, hscalar, -⟩ := hscalars 7 (by decide +kernel)
  have hextreme : Extremum.max.IsExtreme Decimal.Le m [9007199254740993, 9007199254740992] :=
    Eq.mp (congrArg (Extremum.max.IsExtreme Decimal.Le m) (by decide +kernel)) hextreme
  have hle : Decimal.Le 9007199254740993 m := hextreme.ahead _ (by decide)
  have hmem : m = 9007199254740993 ∨ m = 9007199254740992 := by simpa using hextreme.mem
  rcases hmem with rfl | rfl
  · exact hscalar
  · exact absurd hle (by unfold Decimal.Le; decide)

end Accumulator

end GroupedExtrema
