import GroupedExtrema.Storage.Budget

/-!
# Chunked storage

A chunk store is a growable list of chunks of equal length. Every chunk is paid for by a reservation
of its own from a budget that other stores may share, so a store passes the budget through each
operation that allocates or frees.

* Growing adds chunks one at a time. A chunk that cannot be paid for or allocated ends the growth
  with an error, and the chunks added before it stay.
* Truncating drops chunks from the end and gives their bytes back.
-/

namespace GroupedExtrema

/-- The largest number of bytes a single list may take. -/
def maxAllocation : Nat := 2 ^ 63 - 1

/-- Bytes that a list of chunks takes for each chunk, its elements apart. -/
def chunkEntryBytes : Nat := 16

/-- Chunks of equal length and the reservations that pay for them. -/
structure ChunkStore (α : Type) where
  /-- Number of elements in a chunk. -/
  chunkLength : Nat
  /-- Size of an element in bytes. -/
  elementBytes : Nat
  chunks : Array (Array α)
  /-- The reservation of each chunk. -/
  reservations : Array Reservation
deriving DecidableEq

namespace ChunkStore

variable {α : Type}

/-- A store without chunks. -/
def empty (chunkLength elementBytes : Nat) : ChunkStore α := ⟨chunkLength, elementBytes, #[], #[]⟩

/-- Number of chunks. -/
def size (s : ChunkStore α) : Nat := s.chunks.size

/-- Bytes of the elements of one chunk. -/
def chunkBytes (s : ChunkStore α) : Nat := s.chunkLength * s.elementBytes

/-- Bytes held by the reservations of the store. -/
def allocatedBytes (s : ChunkStore α) : Nat :=
  (s.reservations.toList.map (·.bytes)).sum

/-- The chunk at an index. -/
def chunk? (s : ChunkStore α) (chunk : Nat) : Option (Array α) := s.chunks[chunk]?

/-- The element at an offset of a chunk. -/
def get? (s : ChunkStore α) (chunk offset : Nat) : Option α :=
  match s.chunks[chunk]? with
  | some elements => elements[offset]?
  | none => none

/-- Is there an element at an offset of a chunk? -/
def inRange (s : ChunkStore α) (chunk offset : Nat) : Bool := (s.get? chunk offset).isSome

/-- Applies a function to the element at an offset of a chunk, if there is one. -/
def modify? (s : ChunkStore α) (chunk offset : Nat) (f : α → α) : Option (ChunkStore α) :=
  if s.inRange chunk offset then
    some { s with chunks := s.chunks.modify chunk (·.modify offset f) }
  else none

/-- Replaces the element at an offset of a chunk, if there is one. -/
def set? (s : ChunkStore α) (chunk offset : Nat) (value : α) : Option (ChunkStore α) :=
  s.modify? chunk offset fun _ => value

/-- Adds one chunk. Its bytes are reserved first; they are given back if the chunk itself is larger
than any allocation may be. -/
def addChunk (s : ChunkStore α) (budget : Budget) (fill : α) :
    Except Error (ChunkStore α) × Budget :=
  match budget.reserve s.chunkBytes with
  | .error e => (.error e, budget)
  | .ok (r, budget) =>
    if s.chunkBytes ≤ maxAllocation then
      (.ok { s with
        chunks := s.chunks.push (Array.replicate s.chunkLength fill)
        reservations := s.reservations.push r }, budget)
    else (.error .capacityOverflow, budget.release r)

/-- Adds so many chunks, as far as that goes. -/
def addChunks : Nat → ChunkStore α → Budget → α → Except Error Unit × ChunkStore α × Budget
  | 0, s, budget, _ => (.ok (), s, budget)
  | n + 1, s, budget, fill =>
    match s.addChunk budget fill with
    | (.ok s, budget) => addChunks n s budget fill
    | (.error e, budget) => (.error e, s, budget)

/-- Grows to at least `chunks` chunks; new ones hold `fill` everywhere. Answers the number of chunks
added. -/
def grow (s : ChunkStore α) (budget : Budget) (chunks : Nat) (fill : α) :
    Except Error Nat × ChunkStore α × Budget :=
  if chunks ≤ s.size then (.ok 0, s, budget)
  else if maxAllocation < chunks * chunkEntryBytes then (.error .capacityOverflow, s, budget)
  else
    match addChunks (chunks - s.size) s budget fill with
    | (.ok (), grown, budget) => (.ok (chunks - s.size), grown, budget)
    | (.error e, grown, budget) => (.error e, grown, budget)

/-- Drops the chunks from index `chunks` on. -/
def truncate (s : ChunkStore α) (budget : Budget) (chunks : Nat) : ChunkStore α × Budget :=
  ({ s with
      chunks := s.chunks.take chunks
      reservations := s.reservations.take chunks },
    budget.releaseAll (s.reservations.toList.drop chunks))

/-- Gives everything back that the store holds. -/
def free (s : ChunkStore α) (budget : Budget) : Budget :=
  budget.releaseAll s.reservations.toList

/-- Overwrites every element of every chunk. -/
def fill (s : ChunkStore α) (value : α) : ChunkStore α :=
  { s with chunks := s.chunks.map fun c => c.map fun _ => value }

end ChunkStore

end GroupedExtrema
