import GroupedExtrema.DataType
import GroupedExtrema.Json.Text
import GroupedExtrema.Json.Variant

/-!
# Data types in JSON

Data types and extrema are variants; only decimal types have content, their precision and scale.
-/

namespace GroupedExtrema

open Json

/-- A decimal type of which some fields have been read. -/
structure PartialDecimalType where
  precision : Option UInt8
  scale : Option Int8

namespace DecimalType

/-- Reads the value of the field at an index. -/
def readField (i : Nat) (s : PartialDecimalType) (cs : List Char) : Result PartialDecimalType :=
  if i = 0 then
    match readInteger .unsigned8 cs with
    | .error e => .error e
    | .ok (n, r) => .ok ({ s with precision := some n.toNat.toUInt8 }, r)
  else
    match readInteger .signed8 cs with
    | .error e => .error e
    | .ok (n, r) => .ok ({ s with scale := some n.toInt8 }, r)

theorem length_le_of_readField {i : Nat} {s s' : PartialDecimalType} {cs r : List Char}
    (h : readField i s cs = .ok (s', r)) : r.length ≤ cs.length := by
  unfold readField at h
  split at h
  all_goals
    split at h <;> cases h
    next hi => exact length_le_of_readInteger hi

/-- The fields of a decimal type. -/
def reader : RecordReader PartialDecimalType where
  name := "DecimalTypeMeta"
  fields := ["precision", "scale"]
  start := ⟨none, none⟩
  has s i := if i = 0 then s.precision.isSome else s.scale.isSome
  read := readField
  length_le_of_read := length_le_of_readField

/-- The decimal type of the members of a map. -/
def ofMembers : PartialDecimalType → Except Json.Error DecimalType
  | ⟨some p, some s⟩ => .ok ⟨p, s⟩
  | ⟨none, _⟩ => .error (.data (.missingField "precision"))
  | ⟨_, none⟩ => .error (.data (.missingField "scale"))

/-- The decimal type of so many elements of a sequence. -/
def ofElements (n : Nat) : PartialDecimalType → Except Json.Error DecimalType
  | ⟨some p, some s⟩ => .ok ⟨p, s⟩
  | _ => .error (.data (.invalidLength n "DecimalTypeMeta" 2))

/-- Reads a decimal type. -/
def read (cs : List Char) : Result DecimalType := reader.readRecord ofMembers ofElements cs

theorem length_le_of_read {cs r : List Char} {t : DecimalType} (h : read cs = .ok (t, r)) :
    r.length ≤ cs.length :=
  reader.length_le_of_readRecord h

/-- A decimal type in JSON. -/
def write (t : DecimalType) : List Char :=
  writeMap [("precision", writeNat t.precision.toNat), ("scale", writeInt t.scale.toInt)]

end DecimalType

namespace DataType

/-- Reads the content of the variant at an index. Only decimals have one. -/
def readContent (_ : Nat) (cs : List Char) : Result DataType :=
  match DecimalType.read cs with
  | .error e => .error e
  | .ok (t, r) => .ok (.decimal128 t, r)

/-- The variants of data types. -/
def reader : VariantReader DataType where
  names := ["Null", "Boolean", "Int32", "Int64", "Float32", "Float64", "Decimal128",
    "IntervalDayTime"]
  bare
    | 0 => some .null
    | 1 => some .boolean
    | 2 => some .int32
    | 3 => some .int64
    | 4 => some .float32
    | 5 => some .float64
    | 7 => some .intervalDayTime
    | _ => none
  content := readContent
  length_le_of_content h := by
    unfold readContent at h
    split at h <;> cases h
    next ht => exact DecimalType.length_le_of_read ht

/-- Reads a data type. -/
def read (cs : List Char) : Result DataType := reader.readVariant cs

/-- The data type that a JSON text holds. -/
def ofJson (text : String) : Except Json.Error DataType := readText read text

/-- A data type in JSON. -/
def write : DataType → List Char
  | null => writeName "Null"
  | boolean => writeName "Boolean"
  | int32 => writeName "Int32"
  | int64 => writeName "Int64"
  | float32 => writeName "Float32"
  | float64 => writeName "Float64"
  | decimal128 t => writeMap [("Decimal128", t.write)]
  | intervalDayTime => writeName "IntervalDayTime"

/-- A data type as a JSON text. -/
def toJson (t : DataType) : String := String.ofList t.write

end DataType

namespace Extremum

/-- The variants of extrema. -/
def reader : VariantReader Extremum where
  names := ["Min", "Max"]
  bare i := if i = 0 then some min else some max
  content _ _ := .error .malformed
  length_le_of_content h := nomatch h

/-- Reads an extremum. -/
def read (cs : List Char) : Result Extremum := reader.readVariant cs

/-- An extremum in JSON. -/
def write : Extremum → List Char
  | min => writeName "Min"
  | max => writeName "Max"

end Extremum

end GroupedExtrema
