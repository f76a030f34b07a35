import GroupedExtrema.Arithmetic

/-!
# Chunk layouts

Group slots live in chunks of `2 ^ bits` slots. A layout fixes `bits`, and with it where the slot of
an ordinal lies:

* the high bits of the ordinal number the chunk, the low `bits` bits the slot within the chunk;
* one-bit slots are packed 32 to a word, so the low five bits of the offset are the place in a word
  and the rest numbers the word.

A layout has at least five bits, so that a chunk is a whole number of words, and at most 24.
-/

namespace GroupedExtrema

/-- How slots are divided into chunks: a chunk holds `2 ^ bits` of them. -/
structure ChunkLayout where
  /-- Number of low ordinal bits that address a slot within its chunk. -/
  bits : Nat
  le_bits : 5 ≤ bits
  bits_le : bits ≤ 24
deriving DecidableEq

/-- Where the slot of an ordinal lies. -/
structure SlotAddress where
  /-- Index of the chunk. -/
  chunk : Nat
  /-- Index of the slot within the chunk. -/
  offset : Nat
deriving DecidableEq

namespace SlotAddress

/-- Index of the word that holds the slot's bit, when slots are single bits. -/
def word (a : SlotAddress) : Nat := a.offset >>> 5

/-- Place of the slot's bit within its word. -/
def bit (a : SlotAddress) : Nat := a.offset &&& 31

end SlotAddress

namespace ChunkLayout

/-- The layout used where none is asked for: 4096 slots per chunk. -/
def default : ChunkLayout := ⟨12, by decide, by decide⟩

instance : Inhabited ChunkLayout := ⟨default⟩

/-- The layout with `bits` offset bits, if there is one. -/
def ofBits? (bits : Nat) : Option ChunkLayout :=
  if h : 5 ≤ bits ∧ bits ≤ 24 then some ⟨bits, h.1, h.2⟩ else none

/-- Why there is no layout with `bits` offset bits. -/
def rangeMessage (bits : Nat) : String :=
  s!"Bits in chunk must be between 5 and 24, got {bits}"

/-- Number of slots in a chunk. -/
def capacity (l : ChunkLayout) : Nat := 1 <<< l.bits

/-- Mask that keeps the offset part of an ordinal. -/
def offsetMask (l : ChunkLayout) : Nat := (1 <<< l.bits) - 1

/-- Number of 32-bit words that hold one bit for every slot of a chunk. -/
def wordsPerChunk (l : ChunkLayout) : Nat := l.capacity >>> 5

/-- Where the slot of `ordinal` lies. -/
def address (l : ChunkLayout) (ordinal : UInt32) : SlotAddress where
  chunk := ordinal.toNat >>> l.bits
  offset := ordinal.toNat &&& l.offsetMask

/-- The least number of chunks among which the slot of `ordinal` is. -/
def chunksForOrdinal (l : ChunkLayout) (ordinal : UInt32) : Nat :=
  (ordinal.toNat >>> l.bits) + 1

/-- The least number of chunks that hold the slots of `groups` groups. -/
def chunksForGroups (l : ChunkLayout) (groups : Nat) : Nat :=
  (groups + l.capacity - 1) >>> l.bits

/-- Text of a layout in messages. -/
def display (l : ChunkLayout) : String :=
  s!"{l.capacity} slots per chunk ({l.bits} bits)"

theorem ofBits?_bits (l : ChunkLayout) : ofBits? l.bits = some l := by
  simp [ofBits?, l.le_bits, l.bits_le]

end ChunkLayout

end GroupedExtrema
