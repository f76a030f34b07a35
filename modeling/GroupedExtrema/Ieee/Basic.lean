import GroupedExtrema.Arithmetic

/-!
# Binary floating-point patterns

A floating-point value is kept as its sign and its magnitude, the pattern of exponent and fraction
bits without the sign. Magnitudes are ordered like the numbers they stand for, the infinity of a
format lies above all finite magnitudes and the NaNs lie above infinity, so order and class of a
value are read off one natural number. `Ieee.key` is the order of the numbers themselves, for which
the two zeros are one.
-/

namespace GroupedExtrema

/-- The sizes of the two fields after the sign bit. -/
structure Format where
  exponentBits : Nat
  fractionBits : Nat
deriving DecidableEq

namespace Format

/-- Single precision. -/
abbrev binary32 : Format := ⟨8, 23⟩

/-- Double precision. -/
abbrev binary64 : Format := ⟨11, 52⟩

/-- Number of bits of a magnitude. -/
abbrev magnitudeBits (f : Format) : Nat := f.exponentBits + f.fractionBits

/-- The magnitude of infinity: all exponent bits and no fraction bit. -/
def infinity (f : Format) : Nat := (2 ^ f.exponentBits - 1) * 2 ^ f.fractionBits

/-- The exponent of the last place of the smallest magnitudes. -/
def minExponent (f : Format) : Int :=
  2 - 2 ^ (f.exponentBits - 1) - f.fractionBits

end Format

/-- A floating-point value of a format. -/
structure Ieee (f : Format) where
  /-- Is the sign bit set? -/
  negative : Bool
  /-- Exponent and fraction bits. -/
  magnitude : BitVec f.magnitudeBits
deriving DecidableEq

/-- Single-precision values. -/
abbrev Float32Value := Ieee .binary32

/-- Double-precision values. -/
abbrev Float64Value := Ieee .binary64

namespace Ieee

variable {f : Format}

/-- Splits a whole pattern into sign and magnitude. -/
def ofBits (w : BitVec (1 + f.magnitudeBits)) : Ieee f :=
  ⟨w.msb, w.setWidth f.magnitudeBits⟩

/-- The whole pattern, sign bit first. -/
def toBits (x : Ieee f) : BitVec (1 + f.magnitudeBits) :=
  BitVec.ofBool x.negative ++ x.magnitude

/-- The value with a given sign and magnitude. -/
def ofMagnitude (negative : Bool) (magnitude : Nat) : Ieee f :=
  ⟨negative, BitVec.ofNat _ magnitude⟩

/-- Zero, with the sign bit clear. -/
def zero : Ieee f := ofMagnitude false 0

instance : Inhabited (Ieee f) := ⟨zero⟩

/-- The infinity of a sign. -/
def infinity (negative : Bool) : Ieee f := ofMagnitude negative f.infinity

/-- The NaN that operations return: positive, with the first fraction bit set. -/
def nan : Ieee f := ofMagnitude false (f.infinity + 2 ^ (f.fractionBits - 1))

/-- The finite value of a sign that is furthest from zero. -/
def largest (negative : Bool) : Ieee f := ofMagnitude negative (f.infinity - 1)

/-- Is the value not a number? -/
def isNaN (x : Ieee f) : Bool := f.infinity < x.magnitude.toNat

/-- Is the value one of the two infinities? -/
def isInfinite (x : Ieee f) : Bool := x.magnitude.toNat == f.infinity

/-- Is the value one of the two zeros? -/
def isZero (x : Ieee f) : Bool := x.magnitude == 0

/-- The value with the other sign. -/
def neg (x : Ieee f) : Ieee f := { x with negative := !x.negative }

/-- The place of a value in the order of numbers: its magnitude, counted down for negative values.
The two zeros have one place. -/
def key (x : Ieee f) : Int :=
  if x.negative then -x.magnitude.toNat else x.magnitude.toNat

/-- Is the first value less than the second one? A NaN is not less than anything, nor anything less
than a NaN. -/
def lt (x y : Ieee f) : Bool :=
  !x.isNaN && !y.isNaN && decide (x.key < y.key)

/-- Are two values equal as numbers? A NaN equals nothing. -/
def numEq (x y : Ieee f) : Bool :=
  !x.isNaN && !y.isNaN && x.key == y.key

/-- Floating-point values are compared as numbers. -/
instance : BEq (Ieee f) := ⟨numEq⟩

/-- The exponent field. -/
def exponentField (x : Ieee f) : Nat := x.magnitude.toNat / 2 ^ f.fractionBits

/-- The fraction field. -/
def fractionField (x : Ieee f) : Nat := x.magnitude.toNat % 2 ^ f.fractionBits

/-- The integer `s` of a finite value `s * 2 ^ e`, with the leading bit that the pattern leaves
out. -/
def significand (x : Ieee f) : Nat :=
  if x.exponentField = 0 then x.fractionField else 2 ^ f.fractionBits + x.fractionField

/-- The exponent `e` of a finite value `s * 2 ^ e`. -/
def exponent (x : Ieee f) : Int := f.minExponent + (max x.exponentField 1 - 1 : Nat)

/-- The numerator of the magnitude of a finite value. -/
def numerator (x : Ieee f) : Nat := x.significand * 2 ^ x.exponent.toNat

/-- The denominator of the magnitude of a finite value, a power of two. -/
def denominator (x : Ieee f) : Nat := 2 ^ (-x.exponent).toNat

end Ieee

end GroupedExtrema
