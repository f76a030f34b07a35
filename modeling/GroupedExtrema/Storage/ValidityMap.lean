import GroupedExtrema.Storage.ChunkStore

/-!
# Validity maps

A validity map holds one bit for every slot, set once a value that is not null has been folded into
the slot. Bits are packed 32 to a word and chunked like the slots they describe. Marking only ever
sets bits; clearing the whole map is the one way back.
-/

namespace GroupedExtrema

/-- A word of 32 one-bit slots. -/
abbrev SlotWord := BitVec 32

/-- The word of which at most the lowest bit is set. -/
def SlotWord.ofBit (b : Bool) : SlotWord := (BitVec.ofBool b).setWidth 32

/-- One validity bit per slot. -/
structure ValidityMap where
  words : ChunkStore SlotWord
deriving DecidableEq

namespace ValidityMap

/-- A map without chunks. -/
def empty (layout : ChunkLayout) : ValidityMap := ⟨.empty layout.wordsPerChunk 4⟩

/-- Number of chunks. -/
def size (m : ValidityMap) : Nat := m.words.size

/-- Bytes of all chunks. -/
def allocatedBytes (m : ValidityMap) : Nat := m.words.allocatedBytes

/-- The words of a chunk. -/
def chunk? (m : ValidityMap) (chunk : Nat) : Option (Array SlotWord) := m.words.chunk? chunk

/-- Grows to at least `chunks` chunks, new ones without a valid slot. -/
def grow (m : ValidityMap) (budget : Budget) (chunks : Nat) :
    Except Error Nat × ValidityMap × Budget :=
  match m.words.grow budget chunks 0 with
  | (result, words, budget) => (result, ⟨words⟩, budget)

/-- Drops the chunks from index `chunks` on. -/
def truncate (m : ValidityMap) (budget : Budget) (chunks : Nat) : ValidityMap × Budget :=
  match m.words.truncate budget chunks with
  | (words, budget) => (⟨words⟩, budget)

/-- Gives everything back that the map holds. -/
def free (m : ValidityMap) (budget : Budget) : Budget := m.words.free budget

/-- Sets the bit of a slot if `valid`. None if the slot does not exist. -/
def mark? (m : ValidityMap) (a : SlotAddress) (valid : Bool) : Option ValidityMap :=
  (m.words.modify? a.chunk a.word (· ||| SlotWord.ofBit valid <<< a.bit)).map ValidityMap.mk

/-- The bit of a slot. None if the slot does not exist. -/
def isValid? (m : ValidityMap) (a : SlotAddress) : Option Bool :=
  (m.words.get? a.chunk a.word).map (·.getLsbD a.bit)

/-- Clears every bit. -/
def clear (m : ValidityMap) : ValidityMap := ⟨m.words.fill 0⟩

end ValidityMap

end GroupedExtrema
