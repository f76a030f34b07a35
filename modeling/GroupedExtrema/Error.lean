import GroupedExtrema.Column.Basic
import GroupedExtrema.Json.Error
import GroupedExtrema.Layout

/-!
# Errors

The causes for which an operation on accumulators can fail, and the message of each.
-/

namespace GroupedExtrema

/-- Why an operation failed. -/
inductive Error where
  /-- A layout was asked for with a number of bits that no layout has. -/
  | bitsOutOfRange (bits : Nat)
  /-- A chunk did not fit into the memory budget. -/
  | overBudget (bytes reserved : Nat) (limit : Option UInt64)
  /-- A list was asked for that is larger than any allocation may be. -/
  | capacityOverflow
  /-- The slot of an ordinal lies in a chunk that does not exist. -/
  | unallocated (ordinal : UInt32) (chunk chunks : Nat)
  /-- A kernel does not fold inputs of a data type. -/
  | kernelRejects (accumulator : String) (datatype : DataType)
  /-- There is no kernel for a data type. -/
  | noKernel (extremum : Extremum) (datatype : DataType)
  /-- A column of another type than the accumulator's was given. -/
  | wrongInput (accumulator : String) (datatype : DataType)
  /-- A column has fewer rows than there are ordinals. -/
  | inputTooShort (rows ordinals : Nat)
  /-- A batch has another number of rows than there are ordinals. -/
  | batchMismatch (rows ordinals : Nat)
  /-- A column of a batch is not as long as the first one. -/
  | columnLength (expected actual index : Nat)
  /-- A batch has no column at the index that an aggregate reads. -/
  | missingColumn
  /-- Slots and ordinals are divided into chunks differently. -/
  | layoutMismatch (slots ordinals : ChunkLayout)
  /-- The settings of a set could not be read. -/
  | unreadableConfig (cause : Json.Error)
  /-- An index lies outside of what it indexes. -/
  | outOfBounds

namespace Error

/-- Text of a limit in messages. -/
def limitText : Option UInt64 → String
  | some l => toString l
  | none => "none"

/-- The message of an error. -/
def message : Error → String
  | bitsOutOfRange n => ChunkLayout.rangeMessage n
  | overBudget bytes reserved limit =>
    s!"Resources exhausted: failed to reserve {bytes} bytes for accumulator chunk, "
      ++ s!"{reserved} bytes reserved, limit " ++ limitText limit
  | capacityOverflow => "Resources exhausted: failed to reserve memory"
  | unallocated ordinal chunk chunks =>
    s!"Ordinal {ordinal} is in chunk {chunk}, but only {chunks} chunks are allocated"
  | kernelRejects name t => "Cannot create " ++ name ++ " accumulator for " ++ t.display
  | noKernel e t => "No " ++ e.word ++ " accumulator for " ++ t.display
  | wrongInput name t => "Unexpected input type for " ++ name ++ ": " ++ t.display
  | inputTooShort rows ordinals =>
    s!"Input has {rows} rows, but {ordinals} ordinals were provided"
  | batchMismatch rows ordinals =>
    s!"Batch has {rows} rows, but {ordinals} ordinals were provided"
  | columnLength expected actual index =>
    s!"Expected column length to be {expected}, got {actual}. Column idx: {index}"
  | missingColumn => "input column for aggregate"
  | layoutMismatch slots ordinals =>
    "Accumulator chunk layout (" ++ slots.display
      ++ ") does not match ordinal source layout (" ++ ordinals.display ++ ")"
  | unreadableConfig _ => "Failed to parse accumulator config"
  | outOfBounds => "Index out of bounds"

end Error

/-- The layout with `bits` offset bits; an error where there is none. -/
def ChunkLayout.create (bits : Nat) : Except Error ChunkLayout :=
  match ofBits? bits with
  | some l => .ok l
  | none => .error (.bitsOutOfRange bits)

end GroupedExtrema
