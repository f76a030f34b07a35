/-!
# Day-time intervals

An interval counts days and milliseconds apart. Its storage form packs both counts in one 64-bit
word, and the key of a storage word is the signed number by which intervals are ordered: days first,
then milliseconds.
-/

namespace GroupedExtrema

/-- A number of days and a number of milliseconds. -/
structure Interval where
  days : Int32
  millis : Int32
deriving DecidableEq, Inhabited

namespace Interval

/-- Packs the days into the low half and the milliseconds into the high half of a word. -/
def toStorage (i : Interval) : BitVec 64 :=
  i.days.toBitVec.setWidth 64 ||| (i.millis.toBitVec.setWidth 64 <<< 32)

/-- Reads both halves of a storage word back. -/
def ofStorage (w : BitVec 64) : Interval where
  days := .ofBitVec (w.setWidth 32)
  millis := .ofBitVec ((w >>> 32).setWidth 32)

/-- The signed number that orders storage words. Days move to the high half, where they decide
first; the sign bit of the milliseconds is flipped, so that the low half compares as an unsigned
number. -/
def key (w : BitVec 64) : Int64 :=
  .ofBitVec (((w.setWidth 32).signExtend 64 <<< 32)
    ||| (((w >>> 32).setWidth 32 ^^^ 0x80000000#32).setWidth 64))

/-- Text of an interval. -/
def display (i : Interval) : String :=
  s!"{i.days} days {i.millis} ms"

end Interval

end GroupedExtrema
