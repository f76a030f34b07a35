import GroupedExtrema.DataType

/-!
# Folding integers

A null row is folded like any other, with the identity of the extremum in place of its value. The
choice between the two is arithmetic: with `b` the validity bit, `v * b + identity * (b ^ 1)` in
wrapping arithmetic is `v` or the identity.
-/

namespace GroupedExtrema.Fold

/-- The value `v` of a row that is not null, `identity` for a null row. -/
def blend {α : Type} [Add α] [Mul α] [XorOp α] [OfNat α 0] [OfNat α 1]
    (valid : Bool) (v identity : α) : α :=
  let b : α := if valid then 1 else 0
  v * b + identity * (b ^^^ 1)

/-- Folds one row of a type whose arithmetic wraps. -/
def integer {α : Type} [Add α] [Mul α] [XorOp α] [OfNat α 0] [OfNat α 1] [Min α] [Max α]
    (e : Extremum) (identity current incoming : α) (valid : Bool) : α :=
  e.pick current (blend valid incoming identity)

/-- The 32-bit integer that no other one is beyond in the direction away from the extremum. -/
def int32Identity : Extremum → Int32
  | .min => Int32.maxValue
  | .max => Int32.minValue

/-- The 64-bit integer that no other one is beyond in the direction away from the extremum. -/
def int64Identity : Extremum → Int64
  | .min => Int64.maxValue
  | .max => Int64.minValue

/-- Folds a row of 32-bit integers. -/
def int32 (e : Extremum) (current incoming : Int32) (valid : Bool) : Int32 :=
  integer e (int32Identity e) current incoming valid

/-- Folds a row of 64-bit integers. -/
def int64 (e : Extremum) (current incoming : Int64) (valid : Bool) : Int64 :=
  integer e (int64Identity e) current incoming valid

end GroupedExtrema.Fold
