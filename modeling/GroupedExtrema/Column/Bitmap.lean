/-!
# Packed bitmaps

A bitmap is a list of bits packed eight to a byte, lowest bit first. Bits of the last byte past the
length are zero, whichever way a bitmap was built, so equal bit lists have equal bytes.

This is so under two conditions, each of which one of the ways to build a bitmap depends on. The
length of a filled bitmap is rounded up to bytes in 64-bit arithmetic, so it has to be below
`2 ^ 64 - 7`. And an iterator that bits are collected from is asked for more after it has said that
there are none, so it has to stay at its end.

Besides the checked `get?` and `set?` there are two unchecked readers for loops over rows:
`rawBit?` reads a bit straight from its byte and `word64` reads 64 bits at once.
-/

namespace GroupedExtrema

/-- A list of bits, eight to a byte. -/
structure Bitmap where
  /-- Number of bits. -/
  length : Nat
  /-- The packed bits: bit `i` is bit `i % 8` of byte `i / 8`. -/
  bytes : Array (BitVec 8)
deriving DecidableEq, Inhabited

namespace Bitmap

/-- A byte with one bit replaced. -/
def putBit (byte : BitVec 8) (i : Nat) (value : Bool) : BitVec 8 :=
  if value then byte ||| (1#8 <<< i) else byte &&& ~~~(1#8 <<< i)

/-- The empty bitmap. -/
def empty : Bitmap := ⟨0, #[]⟩

/-- Number of bytes that a number of bits is rounded up to. The sum is taken in 64 bits and wraps
without a check: the last seven lengths that there are get no byte. -/
def byteCount (length : Nat) : Nat := (length + 7) % 2 ^ 64 / 8

/-- `length` bits of one value. -/
def replicate (length : Nat) (value : Bool) : Bitmap :=
  let bytes := Array.replicate (byteCount length) (if value then BitVec.allOnes 8 else 0#8)
  let rest := length % 8
  if rest = 0 then ⟨length, bytes⟩
  else ⟨length, bytes.modify (bytes.size - 1) (· &&& ((1#8 <<< rest) - 1))⟩

/-- The byte of up to eight bits. -/
def packByte : List Bool → BitVec 8
  | [] => 0
  | b :: bs => (packByte bs <<< 1) ||| (BitVec.ofBool b).setWidth 8

/-- What an iterator of bits answers each time that it is asked for the next one. After these
answers it has no more bits, but between them it may say so and then go on. -/
abbrev Answers := List (Option Bool)

/-- The blocks of up to eight bits that are taken from an iterator, of which one is begun. A block
ends with its eighth bit or where the iterator has no bit, and the iterator is asked again for the
next one. Only a block without any bit ends the reading. -/
def blocks : List Bool → Answers → List (List Bool)
  | block, [] => if block.isEmpty then [] else [block]
  | block, none :: answers => if block.isEmpty then [] else block :: blocks [] answers
  | block, some bit :: answers =>
    if block.length = 7 then (block ++ [bit]) :: blocks [] answers
    else blocks (block ++ [bit]) answers

/-- One byte for every block, and as many bits as there are in the blocks. -/
def ofBlocks (blocks : List (List Bool)) : Bitmap where
  length := (blocks.map List.length).sum
  bytes := (blocks.map packByte).toArray

/-- The bitmap of the bits that an iterator gives. -/
def collect (answers : Answers) : Bitmap := ofBlocks (blocks [] answers)

/-- The bitmap of a list of bits, collected from an iterator over them that stays at its end: a
fused one. -/
def ofList (bits : List Bool) : Bitmap := collect (bits.map some)

/-- The bit at an index, if the index is in range. -/
def get? (b : Bitmap) (i : Nat) : Option Bool :=
  if i < b.length then b.bytes[i / 8]?.map (·.getLsbD (i % 8)) else none

/-- The bitmap with one bit replaced, if the index is in range. -/
def set? (b : Bitmap) (i : Nat) (value : Bool) : Option Bitmap :=
  if i < b.length ∧ i / 8 < b.bytes.size then
    some { b with bytes := b.bytes.modify (i / 8) (putBit · (i % 8) value) }
  else none

/-- The bitmap with one more bit at its end. -/
def push (b : Bitmap) (value : Bool) : Bitmap :=
  let bytes := if b.length % 8 = 0 then b.bytes.push 0#8 else b.bytes
  { length := b.length + 1
    bytes := bytes.modify (b.length / 8) (putBit · (b.length % 8) value) }

/-- The bits as a list. -/
def toList (b : Bitmap) : List Bool :=
  (List.range b.length).map fun i => (b.get? i).getD false

/-- The bit at an index, read from its byte without regard to the length. -/
def rawBit? (b : Bitmap) (i : Nat) : Option Bool :=
  b.bytes[i >>> 3]?.map (·.getLsbD (i &&& 7))

/-- The word whose lowest byte is the first of a list. -/
def littleEndian : List (BitVec 8) → BitVec 64
  | [] => 0
  | byte :: rest => (littleEndian rest <<< 8) ||| byte.setWidth 64

/-- The 64 bits from bit `64 * i` on. Bits past the end of the bitmap are zero. -/
def word64 (b : Bitmap) (i : Nat) : BitVec 64 :=
  littleEndian (b.bytes.extract (8 * i) (8 * i + 8)).toList

/-- The bit at an index, read from its 64-bit word. -/
def wordBit (b : Bitmap) (i : Nat) : Bool := (b.word64 (i / 64)).getLsbD (i % 64)

end Bitmap

end GroupedExtrema
