import GroupedExtrema.Kernel
import GroupedExtrema.Storage.SlotTable

/-!
# Accumulators

An accumulator keeps the minimum or maximum of every group: row `i` of a column is folded into the
slot of the `i`-th ordinal. Memory comes from a budget, which each operation takes and returns with
the accumulator. An operation that fails keeps the accumulator it answers with; of a failed
`accumulate` at most the growth for its ordinals remains.

A history of operations is a list of `Call`s, and `run` is the state it leads to.
-/

namespace GroupedExtrema

/-- The slots of one aggregate. -/
structure Accumulator (k : Kernel) where
  extremum : Extremum
  /-- The type of the input columns. -/
  datatype : DataType
  slots : SlotTable k.Cell

/-- One operation on an accumulator. -/
inductive Call where
  /-- Folds a column into the slots of the ordinals. -/
  | accumulate (input : Column) (ordinals : List UInt32)
  /-- Grows to at least so many chunks. -/
  | resize (chunks : Nat)
  /-- Forgets all rows. -/
  | reset

namespace Kernel

/-- The name of the accumulators of a kernel for an extremum. -/
def accumulatorName (k : Kernel) (e : Extremum) : String := e.word ++ "_" ++ k.name

/-- Folds one row into the slot of its ordinal and marks the slot valid if the row is not null. None
if the slot does not exist. -/
def foldRow (k : Kernel) (e : Extremum) (t : SlotTable k.Cell) (ordinal : UInt32)
    (row : k.Value × Bool) : Option (SlotTable k.Cell) :=
  let a := t.layout.address ordinal
  match t.cells.modify? a.chunk (k.cellIndex a) fun c => k.foldCell e a.bit c row.1 row.2 with
  | none => none
  | some cells =>
    match t.validity.mark? a row.2 with
    | none => none
    | some validity => some { t with cells := cells, validity := validity }

/-- Folds rows into the slots of the ordinals, the first ordinal taking row `i`. None if a row or a
slot does not exist. -/
def foldRows (k : Kernel) (e : Extremum) (read : Nat → Option (k.Value × Bool)) :
    Nat → List UInt32 → SlotTable k.Cell → Option (SlotTable k.Cell)
  | _, [], t => some t
  | i, o :: os, t =>
    match read i with
    | none => none
    | some row =>
      match k.foldRow e t o row with
      | none => none
      | some t => foldRows k e read (i + 1) os t

end Kernel

namespace Accumulator

variable {k : Kernel}

/-- An accumulator without chunks for inputs of a data type, which the kernel has to accept. -/
def create (k : Kernel) (e : Extremum) (t : DataType) (layout : ChunkLayout) :
    Except Error (Accumulator k) :=
  if k.accepts t then
    .ok {
      extremum := e
      datatype := t
      slots := .empty layout (k.cellsPerChunk layout) k.cellBytes (k.identity e) }
  else .error (.kernelRejects (k.accumulatorName e) t)

/-- The name of an accumulator. -/
def name (a : Accumulator k) : String := k.accumulatorName a.extremum

/-- How the slots are divided into chunks. -/
def layout (a : Accumulator k) : ChunkLayout := a.slots.layout

/-- Number of chunks. -/
def size (a : Accumulator k) : Nat := a.slots.size

/-- Bytes of all chunks. -/
def allocatedBytes (a : Accumulator k) : Nat := a.slots.allocatedBytes

/-- The cells of a chunk. -/
def valueChunk? (a : Accumulator k) (chunk : Nat) : Option (Array k.Cell) :=
  a.slots.cells.chunk? chunk

/-- The validity words of a chunk. -/
def validityChunk? (a : Accumulator k) (chunk : Nat) : Option (Array SlotWord) :=
  a.slots.validity.chunk? chunk

/-- Has a row that is not null been folded into the slot of an ordinal? -/
def isValid? (a : Accumulator k) (ordinal : UInt32) : Option Bool := a.slots.isValid? ordinal

/-- Grows to at least `chunks` chunks. -/
def resize (a : Accumulator k) (budget : Budget) (chunks : Nat) :
    Except Error Unit × Accumulator k × Budget :=
  match a.slots.ensureChunks budget chunks with
  | (result, slots, budget) => (result, { a with slots := slots }, budget)

/-- Folds a column into the slots of the ordinals. The column has to have a row for every ordinal
and, unless all of its rows are null, the kernel's type; slots are made before the type is
examined. -/
def accumulate (a : Accumulator k) (budget : Budget) (input : Column) (ordinals : List UInt32) :
    Except Error Unit × Accumulator k × Budget :=
  if input.length < ordinals.length then
    (.error (.inputTooShort input.length ordinals.length), a, budget)
  else
    match a.slots.ensureOrdinals budget ordinals with
    | (.error e, slots, budget) => (.error e, { a with slots := slots }, budget)
    | (.ok (), slots, budget) =>
      match input with
      | .null _ => (.ok (), { a with slots := slots }, budget)
      | input =>
        match k.reader? input with
        | none => (.error (.wrongInput a.name input.datatype), { a with slots := slots }, budget)
        | some read =>
          match k.foldRows a.extremum read 0 ordinals slots with
          | none => (.error .outOfBounds, { a with slots := slots }, budget)
          | some slots => (.ok (), { a with slots := slots }, budget)

/-- Makes every slot as if nothing had been folded into it. Chunks are kept. -/
def reset (a : Accumulator k) : Accumulator k := { a with slots := a.slots.reset }

/-- The value of an ordinal's slot, null if no row that is not null has been folded into it. -/
def scalar (a : Accumulator k) (ordinal : UInt32) : Except Error Scalar :=
  match a.slots.checkAllocated ordinal with
  | .error e => .error e
  | .ok () =>
    match a.isValid? ordinal with
    | none => .error .outOfBounds
    | some false => .ok .null
    | some true =>
      let address := a.layout.address ordinal
      match a.slots.cells.get? address.chunk (k.cellIndex address) with
      | none => .error .outOfBounds
      | some cell => .ok (k.toScalar (k.readCell address.bit cell))

/-- Gives everything back that the accumulator holds. -/
def free (a : Accumulator k) (budget : Budget) : Budget := a.slots.free budget

/-- Performs one operation. -/
def step (a : Accumulator k) (budget : Budget) :
    Call → Except Error Unit × Accumulator k × Budget
  | .accumulate input ordinals => a.accumulate budget input ordinals
  | .resize chunks => a.resize budget chunks
  | .reset => (.ok (), a.reset, budget)

/-- Performs operations one after the other, whether they fail or not. -/
def run (a : Accumulator k) (budget : Budget) : List Call → Accumulator k × Budget
  | [] => (a, budget)
  | c :: cs =>
    match a.step budget c with
    | (_, a, budget) => run a budget cs

end Accumulator

/-- An accumulator of some kernel. -/
structure AnyAccumulator where
  kernel : Kernel
  accumulator : Accumulator kernel

namespace AnyAccumulator

/-- The accumulator for inputs of a data type. -/
def create (e : Extremum) (t : DataType) (layout : ChunkLayout) : Except Error AnyAccumulator :=
  match Kernel.ofDataType? t with
  | none => .error (.noKernel e t)
  | some k =>
    match Accumulator.create k e t layout with
    | .ok a => .ok ⟨k, a⟩
    | .error e => .error e

/-- Performs one operation. -/
def step (a : AnyAccumulator) (budget : Budget) (c : Call) :
    Except Error Unit × AnyAccumulator × Budget :=
  match a.accumulator.step budget c with
  | (result, accumulator, budget) => (result, ⟨a.kernel, accumulator⟩, budget)

end AnyAccumulator

end GroupedExtrema
