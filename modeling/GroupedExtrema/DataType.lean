/-!
# Data types of columns

The types a column can have, and the two extrema that can be asked of it.
-/

namespace GroupedExtrema

/-- Precision and scale of a fixed-point decimal type. -/
structure DecimalType where
  /-- Number of decimal digits. -/
  precision : UInt8
  /-- Number of digits after the point; negative for digits dropped before it. -/
  scale : Int8
deriving DecidableEq, Inhabited

/-- The type of a column. -/
inductive DataType where
  /-- Every row is null. -/
  | null
  | boolean
  | int32
  | int64
  | float32
  | float64
  /-- A 128-bit fixed-point decimal. -/
  | decimal128 (type : DecimalType)
  /-- An interval of days and milliseconds. -/
  | intervalDayTime
deriving DecidableEq, Inhabited

/-- Text of a data type in messages. -/
def DataType.display : DataType → String
  | null => "Null"
  | boolean => "Boolean"
  | int32 => "Int32"
  | int64 => "Int64"
  | float32 => "Float32"
  | float64 => "Float64"
  | decimal128 t => s!"Decimal128({t.precision},{t.scale})"
  | intervalDayTime => "Interval(DayTime)"

/-- Which extreme value of a group is kept. -/
inductive Extremum where
  | min
  | max
deriving DecidableEq, Inhabited

namespace Extremum

/-- Lower-case word for the extremum, as in the names of accumulators. -/
def word : Extremum → String
  | min => "min"
  | max => "max"

/-- The smaller or the larger of two values of an ordered type. -/
def pick {α : Type} [Min α] [Max α] : Extremum → α → α → α
  | min, a, b => Min.min a b
  | max, a, b => Max.max a b

end Extremum

end GroupedExtrema
