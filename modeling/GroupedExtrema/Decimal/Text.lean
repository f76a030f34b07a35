import GroupedExtrema.Decimal.Shortest

/-!
# Text of floating-point values

The shortest digits of a value are written either positionally or with an exponent. A `FloatText`
holds the choices of a form; `Ieee.text` applies them.
-/

namespace GroupedExtrema

/-- The choices that make up a written form of floating-point values. -/
structure FloatText where
  /-- Which of two equally near decimals is written. -/
  tie : Tie
  /-- The exponents of the leading digit for which no exponent is written; none for all. -/
  positional : Option (Int × Int)
  /-- Is `.0` written after a whole number? -/
  pointZero : Bool

namespace FloatText

/-- Values are shown without an exponent, whole numbers without a point, and of two equally near
decimals the larger is taken. -/
def plain : FloatText := ⟨.up, none, false⟩

/-- Literals are told from integers by a point or an exponent; exponents from `-5` to `15` of the
leading digit are written positionally. -/
def literal : FloatText := ⟨.even, some (-5, 15), true⟩

/-- Is a number whose leading digit stands at `exponent` written positionally? -/
def isPositional (t : FloatText) (exponent : Int) : Bool :=
  match t.positional with
  | none => true
  | some (low, high) => low ≤ exponent && exponent ≤ high

end FloatText

namespace ScaledDecimal

/-- The decimal digits, most significant first. -/
def digitChars (d : ScaledDecimal) : List Char := Nat.toDigits 10 d.digits

/-- The exponent of the leading digit. -/
def leadingExponent (d : ScaledDecimal) : Int := d.exponent + d.digitChars.length - 1

/-- All digits of the number around a point, without an exponent. -/
def positional (pointZero : Bool) (d : ScaledDecimal) : List Char :=
  let ds := d.digitChars
  if 0 ≤ d.exponent then
    ds ++ List.replicate d.exponent.toNat '0' ++ (if pointZero then ['.', '0'] else [])
  else
    let places := (-d.exponent).toNat
    if places < ds.length then
      ds.take (ds.length - places) ++ '.' :: ds.drop (ds.length - places)
    else '0' :: '.' :: (List.replicate (places - ds.length) '0' ++ ds)

/-- An exponent with its sign, the plus included. -/
def exponentChars (e : Int) : List Char :=
  (if e < 0 then '-' else '+') :: Nat.toDigits 10 e.natAbs

/-- One digit before the point, and an exponent. -/
def scientific (d : ScaledDecimal) : List Char :=
  let exponent := 'e' :: exponentChars d.leadingExponent
  match d.digitChars with
  | [] => exponent
  | [c] => c :: exponent
  | c :: cs => c :: '.' :: (cs ++ exponent)

end ScaledDecimal

namespace Ieee

variable {f : Format}

/-- The written form of a value. -/
def text (t : FloatText) (x : Ieee f) : String :=
  if x.isNaN then "NaN"
  else
    let sign := if x.negative then "-" else ""
    if x.isInfinite then sign ++ "inf"
    else
      let d := x.shortest t.tie
      let written := if t.isPositional d.leadingExponent then d.positional t.pointZero
        else d.scientific
      sign ++ String.ofList written

end Ieee

end GroupedExtrema
