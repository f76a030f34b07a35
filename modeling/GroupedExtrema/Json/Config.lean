import GroupedExtrema.Config
import GroupedExtrema.Json.DataType

/-!
# Settings and aggregates in JSON

Settings leave fields out that have their default; an aggregate names all of its fields.
-/

namespace GroupedExtrema

open Json

/-! ## Settings -/

/-- Settings of which some fields have been read. The limit may have been read as absent. -/
structure PartialConfig where
  layout : Option ChunkLayout
  memoryLimit : Option (Option UInt64)

namespace Config

/-- Reads the number of bits of a layout. -/
def readLayout (cs : List Char) : Result ChunkLayout :=
  match readInteger .unsigned32 cs with
  | .error e => .error e
  | .ok (n, r) =>
    match ChunkLayout.ofBits? n.toNat with
    | some l => .ok (l, r)
    | none => .error (.data (.chunkBits n.toNat))

/-- Reads the value of the field at an index. -/
def readField (i : Nat) (s : PartialConfig) (cs : List Char) : Result PartialConfig :=
  if i = 0 then
    match readLayout cs with
    | .error e => .error e
    | .ok (l, r) => .ok ({ s with layout := some l }, r)
  else
    match readOptionalInteger .size cs with
    | .error e => .error e
    | .ok (n, r) => .ok ({ s with memoryLimit := some (n.map fun n => n.toNat.toUInt64) }, r)

theorem length_le_of_readLayout {cs r : List Char} {l : ChunkLayout}
    (h : readLayout cs = .ok (l, r)) : r.length ≤ cs.length := by
  unfold readLayout at h
  split at h
  · cases h
  · next hi =>
    split at h <;> cases h
    exact length_le_of_readInteger hi

theorem length_le_of_readField {i : Nat} {s s' : PartialConfig} {cs r : List Char}
    (h : readField i s cs = .ok (s', r)) : r.length ≤ cs.length := by
  unfold readField at h
  split at h
  · split at h <;> cases h
    next hl => exact length_le_of_readLayout hl
  · split at h <;> cases h
    next hn => exact length_le_of_readOptionalInteger hn

/-- The fields of the settings. -/
def reader : RecordReader PartialConfig where
  name := "AccumulatorConfig"
  fields := ["bits_in_chunk", "memory_limit"]
  start := ⟨none, none⟩
  has s i := if i = 0 then s.layout.isSome else s.memoryLimit.isSome
  read := readField
  length_le_of_read := length_le_of_readField

/-- The settings with defaults for what has not been read. -/
def ofPartial (s : PartialConfig) : Config where
  layout := s.layout.getD default.layout
  memoryLimit := s.memoryLimit.getD default.memoryLimit

/-- Reads settings. -/
def read (cs : List Char) : Result Config :=
  reader.readRecord (fun s => .ok (ofPartial s)) (fun _ s => .ok (ofPartial s)) cs

/-- The settings that a JSON text holds. -/
def ofJson (text : String) : Except Error Config :=
  match readText read text with
  | .ok c => .ok c
  | .error cause => .error (.unreadableConfig cause)

/-- Settings in JSON. -/
def write (c : Config) : List Char :=
  writeMap [
    ("bits_in_chunk", writeNat c.layout.bits),
    ("memory_limit",
      match c.memoryLimit with
      | some l => writeNat l.toNat
      | none => ['n', 'u', 'l', 'l'])]

/-- Settings as a JSON text. -/
def toJson (c : Config) : String := String.ofList c.write

end Config

/-! ## Aggregates -/

/-- An aggregate of which some fields have been read. -/
structure PartialAggregateSpec where
  input : Option UInt64
  extremum : Option Extremum
  datatype : Option DataType

namespace AggregateSpec

/-- Reads the value of the field at an index. -/
def readField (i : Nat) (s : PartialAggregateSpec) (cs : List Char) :
    Result PartialAggregateSpec :=
  match i with
  | 0 =>
    match readInteger .size cs with
    | .error e => .error e
    | .ok (n, r) => .ok ({ s with input := some n.toNat.toUInt64 }, r)
  | 1 =>
    match Extremum.read cs with
    | .error e => .error e
    | .ok (x, r) => .ok ({ s with extremum := some x }, r)
  | _ =>
    match DataType.read cs with
    | .error e => .error e
    | .ok (t, r) => .ok ({ s with datatype := some t }, r)

theorem length_le_of_readField {i : Nat} {s s' : PartialAggregateSpec} {cs r : List Char}
    (h : readField i s cs = .ok (s', r)) : r.length ≤ cs.length := by
  unfold readField at h
  split at h
  · split at h <;> cases h
    next hn => exact length_le_of_readInteger hn
  · split at h <;> cases h
    next hx => exact Extremum.reader.length_le_of_readVariant hx
  · split at h <;> cases h
    next ht => exact DataType.reader.length_le_of_readVariant ht

/-- The fields of an aggregate. -/
def reader : RecordReader PartialAggregateSpec where
  name := "AggregateSpec"
  fields := ["input", "kind", "datatype"]
  start := ⟨none, none, none⟩
  has
    | s, 0 => s.input.isSome
    | s, 1 => s.extremum.isSome
    | s, _ => s.datatype.isSome
  read := readField
  length_le_of_read := length_le_of_readField

/-- The aggregate of the members of a map. -/
def ofMembers : PartialAggregateSpec → Except Json.Error AggregateSpec
  | ⟨some i, some x, some t⟩ => .ok ⟨i, x, t⟩
  | ⟨none, _, _⟩ => .error (.data (.missingField "input"))
  | ⟨_, none, _⟩ => .error (.data (.missingField "kind"))
  | ⟨_, _, none⟩ => .error (.data (.missingField "datatype"))

/-- The aggregate of so many elements of a sequence. -/
def ofElements (n : Nat) : PartialAggregateSpec → Except Json.Error AggregateSpec
  | ⟨some i, some x, some t⟩ => .ok ⟨i, x, t⟩
  | _ => .error (.data (.invalidLength n "AggregateSpec" 3))

/-- Reads an aggregate. -/
def read (cs : List Char) : Result AggregateSpec := reader.readRecord ofMembers ofElements cs

/-- The aggregate that a JSON text holds. -/
def ofJson (text : String) : Except Json.Error AggregateSpec := readText read text

/-- An aggregate in JSON. -/
def write (s : AggregateSpec) : List Char :=
  writeMap [
    ("input", writeNat s.input.toNat),
    ("kind", s.extremum.write),
    ("datatype", s.datatype.write)]

/-- An aggregate as a JSON text. -/
def toJson (s : AggregateSpec) : String := String.ofList s.write

end AggregateSpec

/-- A layout as a JSON text: its number of bits. -/
def ChunkLayout.toJson (l : ChunkLayout) : String := String.ofList (writeNat l.bits)

end GroupedExtrema
