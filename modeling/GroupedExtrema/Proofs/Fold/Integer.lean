import GroupedExtrema.Fold.Integer
import GroupedExtrema.Proofs.Extremum

/-!
# Integer folds

The arithmetic choice between a value and the identity is a plain choice, at the extremes of a type
too, because it only ever multiplies by zero or one. The identity of an extremum is what no value is
behind, so folding it changes nothing, and folding a value picks the extreme one of two.
-/

namespace GroupedExtrema.Fold

theorem blend_int32 (valid : Bool) (v identity : Int32) :
    blend valid v identity = if valid then v else identity := by
  cases valid <;> simp [blend]

theorem blend_int64 (valid : Bool) (v identity : Int64) :
    blend valid v identity = if valid then v else identity := by
  cases valid <;> simp [blend]

/-- Every integer is ahead of the identity. -/
theorem ahead_int32Identity (e : Extremum) (v : Int32) :
    e.Ahead (· ≤ ·) v (int32Identity e) := by
  cases e with
  | min => exact Int32.le_maxValue v
  | max => exact Int32.minValue_le v

@[inherit_doc ahead_int32Identity]
theorem ahead_int64Identity (e : Extremum) (v : Int64) :
    e.Ahead (· ≤ ·) v (int64Identity e) := by
  cases e with
  | min => exact Int64.le_maxValue v
  | max => exact Int64.minValue_le v

/-- Picking between a value and one that it is ahead of keeps the value. -/
theorem pick_eq_left {α : Type} [LE α] [Min α] [Max α] [Std.IsLinearOrder α]
    [Std.LawfulOrderMin α] [Std.LawfulOrderMax α] {e : Extremum} {x y : α}
    (h : e.Ahead (· ≤ ·) x y) : e.pick x y = x := by
  have hleft := (e.selects_pick (α := α)).ahead_left x y trivial trivial
  rcases (e.selects_pick (α := α)).choice x y trivial trivial with heq | heq
  · exact heq
  · rw [heq] at hleft ⊢
    exact hleft.antisymm h fun _ _ => Std.le_antisymm

/-- A row is picked if it is not null, and changes nothing if it is. -/
theorem int32_eq (e : Extremum) (current incoming : Int32) (valid : Bool) :
    int32 e current incoming valid = if valid then e.pick current incoming else current := by
  rw [int32, integer, blend_int32]
  cases valid with
  | false => exact pick_eq_left (ahead_int32Identity e current)
  | true => rfl

@[inherit_doc int32_eq]
theorem int64_eq (e : Extremum) (current incoming : Int64) (valid : Bool) :
    int64 e current incoming valid = if valid then e.pick current incoming else current := by
  rw [int64, integer, blend_int64]
  cases valid with
  | false => exact pick_eq_left (ahead_int64Identity e current)
  | true => rfl

end GroupedExtrema.Fold
