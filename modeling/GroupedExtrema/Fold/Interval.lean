import GroupedExtrema.Fold.Integer
import GroupedExtrema.Interval

/-!
# Folding intervals

Slots hold storage words; only the comparison goes through their keys. A null row is compared with
the key of the identity, and since a word replaces the slot only when its key is strictly beyond the
slot's, the payload of a null row is never stored.
-/

namespace GroupedExtrema.Fold

/-- The storage word with the largest key for the minimum, with the smallest key for the maximum. -/
def intervalIdentity : Extremum → BitVec 64
  | .min => Interval.toStorage ⟨Int32.maxValue, Int32.maxValue⟩
  | .max => Interval.toStorage ⟨Int32.minValue, Int32.minValue⟩

/-- Does a key replace the one of a slot? A tie does not. -/
def beyond (e : Extremum) (key current : Int64) : Bool :=
  match e with
  | .min => key < current
  | .max => current < key

/-- Folds a row of interval storage words. -/
def interval (e : Extremum) (current incoming : BitVec 64) (valid : Bool) : BitVec 64 :=
  let key := blend valid (Interval.key incoming) (Interval.key (intervalIdentity e))
  if beyond e key (Interval.key current) then incoming else current

end GroupedExtrema.Fold
