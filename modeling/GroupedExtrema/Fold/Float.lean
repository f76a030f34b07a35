import GroupedExtrema.DataType
import GroupedExtrema.Ieee.Basic

/-!
# Folding floating-point values

Null rows leave the slot alone. A NaN on either side makes the slot NaN, and it stays NaN. Other
values are compared as numbers. The slot keeps its value only if that lies strictly beyond the
incoming one, so of the two zeros, which are equal, the slot holds the one that came last. That is
what the platform does. Its documentation of the minimum and the maximum of two floating-point values
leaves open which of the zeros is the result.
-/

namespace GroupedExtrema.Fold

variable {f : Format}

/-- The finite value furthest from the extremum. Infinities lie beyond it. -/
def floatIdentity (e : Extremum) : Ieee f := .largest (e == .max)

/-- Does a slot keep its value against an incoming one? Not if they are equal, which shows only where
they are zeros of unlike sign: that the incoming zero wins is assumed of the platform, whose
documentation of minimum and maximum leaves it open. -/
def keeps (e : Extremum) (current incoming : Ieee f) : Bool :=
  match e with
  | .min => current.lt incoming
  | .max => incoming.lt current

/-- Folds a row of floating-point values. -/
def float (e : Extremum) (current incoming : Ieee f) (valid : Bool) : Ieee f :=
  if !valid then current
  else if current.isNaN || incoming.isNaN then .nan
  else if keeps e current incoming then current
  else incoming

end GroupedExtrema.Fold
