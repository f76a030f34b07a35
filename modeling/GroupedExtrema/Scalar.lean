import GroupedExtrema.Decimal.Text
import GroupedExtrema.Interval

/-!
# Scalar values

The value of one slot, as it is read out of an accumulator.
-/

namespace GroupedExtrema

/-- A single value. -/
inductive Scalar where
  | null
  | boolean (value : Bool)
  | int32 (value : Int32)
  | int64 (value : Int64)
  | float32 (value : Float32Value)
  | float64 (value : Float64Value)
  | interval (value : Interval)
deriving DecidableEq, Inhabited

/-- Text of a scalar. -/
def Scalar.display : Scalar → String
  | null => "NULL"
  | boolean v => if v then "true" else "false"
  | int32 v => toString v
  | int64 v => toString v
  | float32 v => v.text .plain
  | float64 v => v.text .plain
  | interval v => v.display

end GroupedExtrema
