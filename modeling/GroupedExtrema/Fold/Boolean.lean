import GroupedExtrema.Storage.ValidityMap

/-!
# Folding truth values

The minimum of truth values is their conjunction and the maximum their disjunction. Slots are single
bits of a word, and a row changes its word by one mask: ones in the mask keep bits under
conjunction, zeros keep bits under disjunction, so a mask that differs from that at one place only
leaves all other slots of the word alone.
-/

namespace GroupedExtrema.Fold

/-- A word of slots in which nothing has been folded. -/
def booleanIdentity : Extremum → SlotWord
  | .min => BitVec.allOnes 32
  | .max => 0

/-- The mask to conjoin with a word for the minimum: zero at the slot's place if the row holds a
false that is not null, and one everywhere else. The bits below the place, which the shift leaves
zero, are filled with ones. -/
def minMask (valid value : Bool) (bit : Nat) : SlotWord :=
  ((~~~SlotWord.ofBit valid ||| SlotWord.ofBit value) <<< bit) ||| ((1#32 <<< bit) - 1)

/-- The mask to disjoin with a word for the maximum: one at the slot's place if the row holds a true
that is not null, and zero everywhere else. -/
def maxMask (valid value : Bool) (bit : Nat) : SlotWord :=
  (SlotWord.ofBit valid &&& SlotWord.ofBit value) <<< bit

/-- Folds a row of truth values into the slot at place `bit` of a word. -/
def boolean (e : Extremum) (bit : Nat) (word : SlotWord) (incoming valid : Bool) : SlotWord :=
  match e with
  | .min => word &&& minMask valid incoming bit
  | .max => word ||| maxMask valid incoming bit

end GroupedExtrema.Fold
