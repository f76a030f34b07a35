import GroupedExtrema.Column.Bitmap
import GroupedExtrema.DataType
import GroupedExtrema.Decimal.Conversion
import GroupedExtrema.Interval

/-!
# Columns

A column holds the rows of one input: its values, and a bitmap that says which of them are there. A
row whose bit is clear is null, whatever value is stored under it; without a bitmap no row is null.

Columns are equal when everything stored is equal: values under null rows count, and a missing
bitmap differs from one that is all ones. Floating-point values are compared as numbers.
-/

namespace GroupedExtrema

/-- Does a validity bitmap, if there is one, belong to `length` rows? -/
def fitsRows (validity : Option Bitmap) (length : Nat) : Bool :=
  match validity with
  | some v => v.length == length
  | none => true

/-- Rows of a fixed-width type. -/
structure Rows (α : Type) where
  values : Array α
  /-- The rows that are not null; all of them where there is no bitmap. -/
  validity : Option Bitmap
deriving BEq, DecidableEq, Inhabited

namespace Rows

variable {α : Type}

/-- Rows with their validity, which has to have one bit for every row. -/
def create? (values : Array α) (validity : Option Bitmap) : Option (Rows α) :=
  if fitsRows validity values.size then some ⟨values, validity⟩ else none

/-- Rows of which none is null. -/
def ofValues (values : Array α) : Rows α := ⟨values, none⟩

/-- Rows from optional values. Null rows store `absent`. -/
def ofOptions (absent : α) (items : List (Option α)) : Rows α where
  values := (items.map (·.getD absent)).toArray
  validity := some (items.foldl (fun v item => v.push item.isSome) .empty)

/-- Number of rows. -/
def length (r : Rows α) : Nat := r.values.size

/-- Is the row at an index not null? None if there is no such row. -/
def isValid? (r : Rows α) (i : Nat) : Option Bool :=
  if i < r.length then
    match r.validity with
    | some v => v.get? i
    | none => some true
  else none

end Rows

/-- Rows of truth values, packed like their validity. -/
structure BooleanRows where
  values : Bitmap
  /-- The rows that are not null; all of them where there is no bitmap. -/
  validity : Option Bitmap
deriving DecidableEq, Inhabited

namespace BooleanRows

/-- Rows with their validity, which has to have one bit for every row. -/
def create? (values : Bitmap) (validity : Option Bitmap) : Option BooleanRows :=
  if fitsRows validity values.length then some ⟨values, validity⟩ else none

/-- Rows of which none is null. -/
def ofValues (values : Bitmap) : BooleanRows := ⟨values, none⟩

/-- Rows from optional values. Null rows store `false`. -/
def ofOptions (items : List (Option Bool)) : BooleanRows where
  values := items.foldl (fun v item => v.push (item.getD false)) .empty
  validity := some (items.foldl (fun v item => v.push item.isSome) .empty)

/-- Number of rows. -/
def length (r : BooleanRows) : Nat := r.values.length

/-- Is the row at an index not null? None if there is no such row. -/
def isValid? (r : BooleanRows) (i : Nat) : Option Bool :=
  if i < r.length then
    match r.validity with
    | some v => v.get? i
    | none => some true
  else none

end BooleanRows

/-- One column of input. -/
inductive Column where
  /-- So many rows, all of them null. -/
  | null (length : Nat)
  | boolean (rows : BooleanRows)
  | int32 (rows : Rows Int32)
  | int64 (rows : Rows Int64)
  | float32 (rows : Rows Float32Value)
  | float64 (rows : Rows Float64Value)
  /-- Unscaled decimals with their type. -/
  | decimal128 (type : DecimalType) (rows : Rows Unscaled)
  | interval (rows : Rows Interval)
deriving BEq, Inhabited

namespace Column

/-- The type of a column. -/
def datatype : Column → DataType
  | null _ => .null
  | boolean _ => .boolean
  | int32 _ => .int32
  | int64 _ => .int64
  | float32 _ => .float32
  | float64 _ => .float64
  | decimal128 t _ => .decimal128 t
  | interval _ => .intervalDayTime

/-- Number of rows of a column. -/
def length : Column → Nat
  | null n => n
  | boolean r => r.length
  | int32 r => r.length
  | int64 r => r.length
  | float32 r => r.length
  | float64 r => r.length
  | decimal128 _ r => r.length
  | interval r => r.length

/-- The validity bitmap of a column, if it has one. -/
def validity : Column → Option Bitmap
  | null _ => none
  | boolean r => r.validity
  | int32 r => r.validity
  | int64 r => r.validity
  | float32 r => r.validity
  | float64 r => r.validity
  | decimal128 _ r => r.validity
  | interval r => r.validity

/-- Is the row at an index not null? None if there is no such row. -/
def isValid? : Column → Nat → Option Bool
  | null n, i => if i < n then some false else none
  | boolean r, i => r.isValid? i
  | int32 r, i => r.isValid? i
  | int64 r, i => r.isValid? i
  | float32 r, i => r.isValid? i
  | float64 r, i => r.isValid? i
  | decimal128 _ r, i => r.isValid? i
  | interval r, i => r.isValid? i

end Column

end GroupedExtrema
