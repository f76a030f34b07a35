import GroupedExtrema.Ieee.Rounding
import GroupedExtrema.Json.Error

/-!
# JSON numbers

A number without fraction and exponent that fits into 64 bits, signed if it has a minus sign, is an
integer. Every other number is a double, and so is `-0`.

The double is made from a significand of at most 64 bits and a decimal exponent. Digits that no
longer fit into the significand are dropped; before the point they count in the exponent. The
significand is rounded to a double and then multiplied or divided by a power of ten, so the result
can be off by a rounding. A number too large for a double is malformed.
-/

namespace GroupedExtrema.Json

/-- The value of a number. -/
inductive Number where
  | integer (value : Int)
  | float (value : Float64Value)

/-- The value of a decimal digit. -/
def digitValue (c : Char) : Nat := c.toNat - '0'.toNat

/-- The number that a list of decimal digits stands for. -/
def digitsValue (ds : List Char) : Nat := ds.foldl (fun n d => 10 * n + digitValue d) 0

/-- Appends digits to a significand as long as it fits into 64 bits; the other digits are left. -/
def absorb (significand : Nat) : List Char → Nat × List Char
  | [] => (significand, [])
  | d :: ds =>
    let next := 10 * significand + digitValue d
    if next < 2 ^ 64 then absorb next ds else (significand, d :: ds)

/-- Scales a double by `10 ^ exponent`; none if the result is infinite. Powers of ten beyond `308`
are not doubles, so larger divisions are done in steps. -/
def scaleByTen (x : Float64Value) (exponent : Int) : Option Float64Value :=
  if 308 < exponent then
    if x.isZero then some x else none
  else if 0 ≤ exponent then
    let y := x * .ofNat (10 ^ exponent.toNat)
    if y.isInfinite then none else some y
  else if -308 ≤ exponent then some (x / .ofNat (10 ^ exponent.natAbs))
  else if x.isZero then some x
  else scaleByTen (x / .ofNat (10 ^ 308)) (exponent + 308)
termination_by exponent.natAbs

/-- The double with a sign, a significand and a decimal exponent. -/
def floatOfParts (negative : Bool) (significand : Nat) (exponent : Int) :
    Except Error Float64Value :=
  match scaleByTen (.ofNat significand) exponent with
  | some x => .ok (if negative then x.neg else x)
  | none => .error .malformed

/-- The integer with a sign and a magnitude if it fits into 64 bits, a double otherwise. Zero with a
minus sign is a double. -/
def integerOfParts (negative : Bool) (significand : Nat) : Number :=
  if negative then
    if 0 < significand ∧ significand ≤ 2 ^ 63 then .integer (-significand)
    else .float (Ieee.neg (.ofNat significand))
  else .integer significand

/-- What is wrong with a text in which a digit must come next and does not. -/
def missingDigit : List Char → Error
  | [] => .truncated
  | _ => .malformed

/-- The largest exponent that is read as a number. -/
def maxExponent : Nat := 2 ^ 31 - 1

/-- Splits off the sign of an exponent. Is it a minus? -/
def splitSign : List Char → Bool × List Char
  | '+' :: r => (false, r)
  | '-' :: r => (true, r)
  | cs => (false, cs)

/-- Reads an exponent after its letter. An exponent past `maxExponent` makes zero, or with a positive
sign and a significand other than zero no number at all. -/
def readExponent (negative : Bool) (significand : Nat) (exponent : Int) (cs : List Char) :
    Result Float64Value :=
  let (down, cs) := splitSign cs
  let ds := cs.takeWhile Char.isDigit
  let rest := cs.dropWhile Char.isDigit
  if ds.isEmpty then .error (missingDigit rest)
  else
    let e := digitsValue ds
    if maxExponent < e then
      if significand ≠ 0 ∧ !down then .error .malformed
      else .ok (.ofMagnitude negative 0, rest)
    else
      match floatOfParts negative significand (if down then exponent - e else exponent + e) with
      | .error e => .error e
      | .ok x => .ok (x, rest)

/-- Makes a double once its digits have been read; an exponent may follow them. -/
def readScale (negative : Bool) (significand : Nat) (exponent : Int) :
    List Char → Result Float64Value
  | 'e' :: r | 'E' :: r => readExponent negative significand exponent r
  | rest =>
    match floatOfParts negative significand exponent with
    | .error e => .error e
    | .ok x => .ok (x, rest)

/-- Reads the fraction after its point, and an exponent if there is one. -/
def readFraction (negative : Bool) (significand : Nat) (exponent : Int) (cs : List Char) :
    Result Float64Value :=
  let ds := cs.takeWhile Char.isDigit
  let rest := cs.dropWhile Char.isDigit
  if ds.isEmpty then .error (missingDigit rest)
  else
    let (significand, dropped) := absorb significand ds
    readScale negative significand (exponent - (ds.length - dropped.length : Nat)) rest

/-- A double as a number. -/
def asFloat : Result Float64Value → Result Number
  | .ok (x, r) => .ok (.float x, r)
  | .error e => .error e

/-- Reads what follows the digits before the point: `significand` is made of the leading ones, and
`dropped` more did not fit into it. -/
def readTail (negative : Bool) (significand dropped : Nat) (rest : List Char) : Result Number :=
  match rest with
  | '.' :: r => asFloat (readFraction negative significand dropped r)
  | 'e' :: _ | 'E' :: _ => asFloat (readScale negative significand dropped rest)
  | _ =>
    if dropped = 0 then .ok (integerOfParts negative significand, rest)
    else asFloat (readScale negative significand dropped rest)

/-- Reads a number without its sign. A zero stands alone before the point. -/
def readMagnitude (negative : Bool) (cs : List Char) : Result Number :=
  match cs.takeWhile Char.isDigit with
  | [] => .error (missingDigit (cs.dropWhile Char.isDigit))
  | '0' :: _ :: _ => .error .malformed
  | ds =>
    let (significand, dropped) := absorb 0 ds
    readTail negative significand dropped.length (cs.dropWhile Char.isDigit)

/-- Reads a number. -/
def readNumber : List Char → Result Number
  | '-' :: r => readMagnitude true r
  | cs => readMagnitude false cs

/-- Does a number start with this character? -/
def startsNumber (c : Char) : Bool := c == '-' || c.isDigit

/-! ## What is left is no longer than the text -/

theorem length_dropWhile_le (p : Char → Bool) (cs : List Char) :
    (cs.dropWhile p).length ≤ cs.length :=
  (List.dropWhile_sublist p).length_le

theorem length_splitSign_le (cs : List Char) : (splitSign cs).2.length ≤ cs.length := by
  unfold splitSign
  split <;> simp

theorem length_le_of_readExponent {negative : Bool} {significand : Nat} {exponent : Int}
    {cs r : List Char} {x : Float64Value}
    (h : readExponent negative significand exponent cs = .ok (x, r)) : r.length ≤ cs.length := by
  have hle := Nat.le_trans (length_dropWhile_le Char.isDigit _) (length_splitSign_le cs)
  simp only [readExponent] at h
  split at h
  · cases h
  · split at h
    · split at h <;> cases h
      exact hle
    · split at h <;> cases h
      exact hle

theorem length_le_of_readScale {negative : Bool} {significand : Nat} {exponent : Int}
    {cs r : List Char} {x : Float64Value}
    (h : readScale negative significand exponent cs = .ok (x, r)) : r.length ≤ cs.length := by
  unfold readScale at h
  split at h
  · exact Nat.le_succ_of_le (length_le_of_readExponent h)
  · exact Nat.le_succ_of_le (length_le_of_readExponent h)
  · split at h <;> cases h
    exact Nat.le_refl _

theorem length_le_of_readFraction {negative : Bool} {significand : Nat} {exponent : Int}
    {cs r : List Char} {x : Float64Value}
    (h : readFraction negative significand exponent cs = .ok (x, r)) : r.length ≤ cs.length := by
  simp only [readFraction] at h
  split at h
  · cases h
  · exact Nat.le_trans (length_le_of_readScale h) (length_dropWhile_le Char.isDigit cs)

theorem eq_ok_of_asFloat {result : Result Float64Value} {n : Number} {r : List Char}
    (h : asFloat result = .ok (n, r)) : ∃ x, result = .ok (x, r) := by
  unfold asFloat at h
  split at h
  · cases h
    exact ⟨_, rfl⟩
  · cases h

theorem length_le_of_readTail {negative : Bool} {significand dropped : Nat} {cs r : List Char}
    {n : Number} (h : readTail negative significand dropped cs = .ok (n, r)) :
    r.length ≤ cs.length := by
  unfold readTail at h
  split at h
  · obtain ⟨x, hx⟩ := eq_ok_of_asFloat h
    exact Nat.le_succ_of_le (length_le_of_readFraction hx)
  · obtain ⟨x, hx⟩ := eq_ok_of_asFloat h
    exact length_le_of_readScale hx
  · obtain ⟨x, hx⟩ := eq_ok_of_asFloat h
    exact length_le_of_readScale hx
  · split at h
    · cases h
      exact Nat.le_refl _
    · obtain ⟨x, hx⟩ := eq_ok_of_asFloat h
      exact length_le_of_readScale hx

theorem length_le_of_readNumber {cs r : List Char} {n : Number}
    (h : readNumber cs = .ok (n, r)) : r.length ≤ cs.length := by
  have key {negative : Bool} {cs : List Char} (h : readMagnitude negative cs = .ok (n, r)) :
      r.length ≤ cs.length := by
    unfold readMagnitude at h
    split at h
    · cases h
    · cases h
    · exact Nat.le_trans (length_le_of_readTail h) (length_dropWhile_le Char.isDigit cs)
  unfold readNumber at h
  split at h
  · exact Nat.le_succ_of_le (key h)
  · exact key h

end GroupedExtrema.Json
