import GroupedExtrema.Fold.Boolean
import GroupedExtrema.Fold.Float
import GroupedExtrema.Fold.Integer
import GroupedExtrema.Fold.Interval
import GroupedExtrema.Scalar

/-!
# Kernels

A kernel says how one type of input is folded into slots. There is one kernel for each column type
except null columns. All of them have the same interface:

* `Value` is what a row contributes and a slot stands for, `Cell` what the value region stores: a
  value, or for truth values a word of 32 slots;
* `identity` is the cell of new slots and `foldCell` folds a row into the cell of its slot;
* `readCell` is the value of a slot and `toScalar` what it reads back as;
* `reader?` gives access to the rows of a column of the kernel's type.
-/

namespace GroupedExtrema

/-- The ways to fold input into slots. -/
inductive Kernel where
  | int32
  | int64
  | float32
  | float64
  /-- Decimals, folded as doubles. -/
  | decimal128
  | boolean
  | intervalDayTime
deriving DecidableEq, Inhabited

namespace Rows

variable {α : Type}

/-- Value and validity of a row, read straight from the stored bytes. -/
def read? (r : Rows α) (i : Nat) : Option (α × Bool) :=
  match r.values[i]? with
  | none => none
  | some v =>
    match r.validity with
    | none => some (v, true)
    | some b => (b.rawBit? i).map fun valid => (v, valid)

end Rows

/-- Value and validity of a row, read through 64-bit words. -/
def BooleanRows.read (r : BooleanRows) (i : Nat) : Bool × Bool :=
  (r.values.wordBit i,
    match r.validity with
    | none => true
    | some b => b.wordBit i)

namespace Kernel

/-- What a slot of the kernel stands for. -/
abbrev Value : Kernel → Type
  | int32 => Int32
  | int64 => Int64
  | float32 => Float32Value
  | float64 => Float64Value
  | decimal128 => Float64Value
  | boolean => Bool
  | intervalDayTime => BitVec 64

/-- What an element of the kernel's value region stores. -/
abbrev Cell : Kernel → Type
  | int32 => Int32
  | int64 => Int64
  | float32 => Float32Value
  | float64 => Float64Value
  | decimal128 => Float64Value
  | boolean => SlotWord
  | intervalDayTime => BitVec 64

/-- The name of the kernel within the names of accumulators. -/
def name : Kernel → String
  | int32 => "int32"
  | int64 => "int64"
  | float32 => "float32"
  | float64 => "float64"
  | decimal128 => "decimal128"
  | boolean => "boolean"
  | intervalDayTime => "interval_daytime"

/-- The kernel for inputs of a data type. Null columns have none. -/
def ofDataType? : DataType → Option Kernel
  | .null => none
  | .boolean => some boolean
  | .int32 => some int32
  | .int64 => some int64
  | .float32 => some float32
  | .float64 => some float64
  | .decimal128 _ => some decimal128
  | .intervalDayTime => some intervalDayTime

/-- Does the kernel fold inputs of a data type? -/
def accepts (k : Kernel) (t : DataType) : Bool := ofDataType? t == some k

/-- Number of cells in a chunk. -/
def cellsPerChunk (k : Kernel) (l : ChunkLayout) : Nat :=
  match k with
  | boolean => l.wordsPerChunk
  | _ => l.capacity

/-- Size of a cell in bytes. -/
def cellBytes : Kernel → Nat
  | int32 | float32 | boolean => 4
  | int64 | float64 | decimal128 | intervalDayTime => 8

/-- Index of a slot's cell within its chunk. -/
def cellIndex (k : Kernel) (a : SlotAddress) : Nat :=
  match k with
  | boolean => a.word
  | _ => a.offset

/-- The cell of slots into which nothing has been folded. -/
def identity (e : Extremum) : (k : Kernel) → k.Cell
  | int32 => Fold.int32Identity e
  | int64 => Fold.int64Identity e
  | float32 => Fold.floatIdentity e
  | float64 => Fold.floatIdentity e
  | decimal128 => Fold.floatIdentity e
  | boolean => Fold.booleanIdentity e
  | intervalDayTime => Fold.intervalIdentity e

/-- Folds a row into the slot at place `bit` of its cell. -/
def foldCell (e : Extremum) (bit : Nat) :
    (k : Kernel) → k.Cell → k.Value → (valid : Bool) → k.Cell
  | int32 => Fold.int32 e
  | int64 => Fold.int64 e
  | float32 => Fold.float e
  | float64 => Fold.float e
  | decimal128 => Fold.float e
  | boolean => Fold.boolean e bit
  | intervalDayTime => Fold.interval e

/-- The value of the slot at place `bit` of its cell. -/
def readCell (bit : Nat) : (k : Kernel) → k.Cell → k.Value
  | int32, c => c
  | int64, c => c
  | float32, c => c
  | float64, c => c
  | decimal128, c => c
  | boolean, c => c.getLsbD bit
  | intervalDayTime, c => c

/-- The scalar of a slot's value. Decimals read back as doubles. -/
def toScalar : (k : Kernel) → k.Value → Scalar
  | int32, v => .int32 v
  | int64, v => .int64 v
  | float32, v => .float32 v
  | float64, v => .float64 v
  | decimal128, v => .float64 v
  | boolean, v => .boolean v
  | intervalDayTime, v => .interval (.ofStorage v)

/-- Access by index to the rows of a column: the value in the kernel's form, and whether the row is
not null. None if the column has another type. -/
def reader? : (k : Kernel) → Column → Option (Nat → Option (k.Value × Bool))
  | int32, .int32 r => some r.read?
  | int64, .int64 r => some r.read?
  | float32, .float32 r => some r.read?
  | float64, .float64 r => some r.read?
  | decimal128, .decimal128 t r =>
    let divisor := Decimal.divisor t.scale
    some fun i => (r.read? i).map fun (v, valid) => (Decimal.toDouble divisor v, valid)
  | boolean, .boolean r => some fun i => some (r.read i)
  | intervalDayTime, .interval r =>
    some fun i => (r.read? i).map fun (v, valid) => (v.toStorage, valid)
  | _, _ => none

end Kernel

end GroupedExtrema
