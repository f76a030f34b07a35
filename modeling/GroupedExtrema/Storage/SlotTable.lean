import GroupedExtrema.Storage.ValidityMap

/-!
# Slot tables

A slot table holds the cells of all slots and their validity in two regions that are chunked alike
and paid for by one budget. The regions grow together or not at all: when either of them cannot
grow, both are cut back to what they were.

A cell is what one element of the value region stores, a whole value or a word of 32 one-bit values.
-/

namespace GroupedExtrema

/-- The value region and the validity region of one accumulator. -/
structure SlotTable (α : Type) where
  layout : ChunkLayout
  /-- What the cells of new and reset chunks hold. -/
  identity : α
  cells : ChunkStore α
  validity : ValidityMap
deriving DecidableEq

namespace SlotTable

variable {α : Type}

/-- A table without chunks. -/
def empty (layout : ChunkLayout) (cellsPerChunk cellBytes : Nat) (identity : α) : SlotTable α where
  layout := layout
  identity := identity
  cells := .empty cellsPerChunk cellBytes
  validity := .empty layout

/-- Number of chunks. -/
def size (t : SlotTable α) : Nat := t.cells.size

/-- Bytes of both regions. -/
def allocatedBytes (t : SlotTable α) : Nat :=
  t.cells.allocatedBytes + t.validity.allocatedBytes

/-- Cuts both regions back to `chunks` chunks. -/
def truncate (t : SlotTable α) (budget : Budget) (chunks : Nat) : SlotTable α × Budget :=
  match t.cells.truncate budget chunks with
  | (cells, budget) =>
    match t.validity.truncate budget chunks with
    | (validity, budget) => ({ t with cells := cells, validity := validity }, budget)

/-- Grows both regions to at least `chunks` chunks. New slots hold the identity and are not valid.
On failure both regions are as before. -/
def ensureChunks (t : SlotTable α) (budget : Budget) (chunks : Nat) :
    Except Error Unit × SlotTable α × Budget :=
  if chunks ≤ t.size then (.ok (), t, budget)
  else
    match t.cells.grow budget chunks t.identity with
    | (.error e, cells, budget) =>
      (.error e, { t with cells := cells }.truncate budget t.size)
    | (.ok _, cells, budget) =>
      match t.validity.grow budget chunks with
      | (.error e, validity, budget) =>
        (.error e, { t with cells := cells, validity := validity }.truncate budget t.size)
      | (.ok _, validity, budget) =>
        (.ok (), { t with cells := cells, validity := validity }, budget)

/-- Grows so that the slots of all ordinals exist. -/
def ensureOrdinals (t : SlotTable α) (budget : Budget) (ordinals : List UInt32) :
    Except Error Unit × SlotTable α × Budget :=
  match ordinals.max? with
  | some o => t.ensureChunks budget (t.layout.chunksForOrdinal o)
  | none => (.ok (), t, budget)

/-- Gives every cell the identity and makes every slot not valid. Chunks are kept. -/
def reset (t : SlotTable α) : SlotTable α :=
  { t with cells := t.cells.fill t.identity, validity := t.validity.clear }

/-- Is the slot of an ordinal valid? Slots of chunks that do not exist are not. None if the
validity region lacks the slot's bit. -/
def isValid? (t : SlotTable α) (ordinal : UInt32) : Option Bool :=
  let a := t.layout.address ordinal
  if a.chunk < t.size then t.validity.isValid? a else some false

/-- Fails unless the slot of an ordinal exists. -/
def checkAllocated (t : SlotTable α) (ordinal : UInt32) : Except Error Unit :=
  let a := t.layout.address ordinal
  if a.chunk < t.size then .ok () else .error (.unallocated ordinal a.chunk t.size)

/-- Gives everything back that the table holds. -/
def free (t : SlotTable α) (budget : Budget) : Budget :=
  t.validity.free (t.cells.free budget)

end SlotTable

end GroupedExtrema
