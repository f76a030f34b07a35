import GroupedExtrema.Kernel
import GroupedExtrema.Proofs.Addressing
import GroupedExtrema.Proofs.Fold.Boolean
import GroupedExtrema.Proofs.Fold.Float
import GroupedExtrema.Proofs.Fold.Interval

/-!
# Laws of the kernels

Whatever the kernel, folding a row into a cell does one thing to the slot at which it is folded: a
row that is not null is combined with the value of the slot, and a null row changes nothing. The
other slots of the cell, if there are any, keep their values. All reasoning about tables and runs
uses these laws only, so it is the same for all kernels.
-/

namespace GroupedExtrema.Kernel

/-- The value of a slot after a row that is not null. -/
def combine (e : Extremum) : (k : Kernel) → k.Value → k.Value → k.Value
  | int32 => e.pick
  | int64 => e.pick
  | float32 => Fold.floatPick e
  | float64 => Fold.floatPick e
  | decimal128 => Fold.floatPick e
  | boolean => e.pick
  | intervalDayTime => Fold.intervalPick e

/-- The value of a slot into which nothing has been folded. -/
def start (e : Extremum) (k : Kernel) : k.Value := k.readCell 0 (k.identity e)

/-- Every slot of a new cell has the same value. -/
theorem readCell_identity (e : Extremum) (k : Kernel) {bit : Nat} (hbit : bit < 32) :
    k.readCell bit (k.identity e) = k.start e := by
  cases k with
  | boolean =>
      show (Fold.booleanIdentity e).getLsbD bit = (Fold.booleanIdentity e).getLsbD 0
      rw [Fold.getLsbD_booleanIdentity e hbit, Fold.getLsbD_booleanIdentity e (by decide)]
  | _ => rfl

/-- A slot's own row is combined with it unless the row is null. -/
theorem readCell_foldCell_self (e : Extremum) (k : Kernel) {bit : Nat} (hbit : bit < 32)
    (c : k.Cell) (v : k.Value) (valid : Bool) :
    k.readCell bit (k.foldCell e bit c v valid) =
      if valid then k.combine e (k.readCell bit c) v else k.readCell bit c := by
  cases k with
  | int32 => exact Fold.int32_eq e c v valid
  | int64 => exact Fold.int64_eq e c v valid
  | float32 => exact Fold.float_eq e c v valid
  | float64 => exact Fold.float_eq e c v valid
  | decimal128 => exact Fold.float_eq e c v valid
  | boolean =>
      show (Fold.boolean e bit c v valid).getLsbD bit = _
      rw [Fold.getLsbD_boolean e c v valid hbit hbit]
      simp only [true_and]
      rfl
  | intervalDayTime => exact Fold.interval_eq e c v valid

/-- A null row leaves the whole cell alone. -/
theorem foldCell_null (e : Extremum) (k : Kernel) {bit : Nat} (hbit : bit < 32) (c : k.Cell)
    (v : k.Value) : k.foldCell e bit c v false = c := by
  cases k with
  | boolean =>
      apply BitVec.eq_of_getLsbD_eq
      intro j hj
      show (Fold.boolean e bit c v false).getLsbD j = c.getLsbD j
      rw [Fold.getLsbD_boolean e c v false hbit hj, if_neg (by simp)]
  | int32 => exact readCell_foldCell_self e int32 hbit c v false
  | int64 => exact readCell_foldCell_self e int64 hbit c v false
  | float32 => exact readCell_foldCell_self e float32 hbit c v false
  | float64 => exact readCell_foldCell_self e float64 hbit c v false
  | decimal128 => exact readCell_foldCell_self e decimal128 hbit c v false
  | intervalDayTime => exact readCell_foldCell_self e intervalDayTime hbit c v false

/-- The row of another slot of the same cell leaves a slot alone. -/
theorem readCell_foldCell_other (e : Extremum) (k : Kernel) {a b : SlotAddress}
    (hcell : k.cellIndex a = k.cellIndex b) (hne : b.offset ≠ a.offset) (c : k.Cell) (v : k.Value)
    (valid : Bool) :
    k.readCell b.bit (k.foldCell e a.bit c v valid) = k.readCell b.bit c := by
  cases k with
  | boolean =>
      -- In one word, different slots have different bits.
      have hbit : b.bit ≠ a.bit := fun h => hne (SlotAddress.offset_eq_of_word_bit hcell.symm h)
      show (Fold.boolean e a.bit c v valid).getLsbD b.bit = c.getLsbD b.bit
      rw [Fold.getLsbD_boolean e c v valid a.bit_lt b.bit_lt, if_neg fun h => hbit h.1]
  -- All other kernels have one slot to a cell.
  | _ => exact absurd hcell.symm hne

/-- The cell of a slot lies within its chunk. -/
theorem cellIndex_lt (k : Kernel) {l : ChunkLayout} {a : SlotAddress} (h : a.offset < l.capacity) :
    k.cellIndex a < k.cellsPerChunk l := by
  cases k with
  | boolean => exact SlotAddress.word_lt h
  | _ => exact h

theorem toScalar_ne_null (k : Kernel) (v : k.Value) : k.toScalar v ≠ .null := by
  cases k <;> exact Scalar.noConfusion

/-- What a slot reads back as determines its value. -/
theorem toScalar_injective (k : Kernel) {v w : k.Value} (h : k.toScalar v = k.toScalar w) :
    v = w := by
  cases k with
  | int32 => exact Scalar.int32.inj h
  | int64 => exact Scalar.int64.inj h
  | float32 => exact Scalar.float32.inj h
  | float64 => exact Scalar.float64.inj h
  | decimal128 => exact Scalar.float64.inj h
  | boolean => exact Scalar.boolean.inj h
  | intervalDayTime =>
      have hstorage := congrArg Interval.toStorage (Scalar.interval.inj h)
      rwa [Interval.toStorage_ofStorage, Interval.toStorage_ofStorage] at hstorage

/-! ### Rows of one slot -/

/-- Value and validity of a slot after a row that is not null. -/
def absorb (e : Extremum) (k : Kernel) (s : k.Value × Bool) (v : k.Value) : k.Value × Bool :=
  (k.combine e s.1 v, true)

/-- Value and validity of a slot after any row. -/
def absorbRow (e : Extremum) (k : Kernel) (s : k.Value × Bool) (row : k.Value × Bool) :
    k.Value × Bool :=
  if row.2 then k.absorb e s row.1 else s

/-- Value and validity of a slot into which nothing but some values have been folded. -/
def contents (e : Extremum) (k : Kernel) (vs : List k.Value) : k.Value × Bool :=
  vs.foldl (k.absorb e) (k.start e, false)

@[simp] theorem contents_nil (e : Extremum) (k : Kernel) : k.contents e [] = (k.start e, false) :=
  rfl

theorem contents_append (e : Extremum) (k : Kernel) (vs ws : List k.Value) :
    k.contents e (vs ++ ws) = ws.foldl (k.absorb e) (k.contents e vs) :=
  List.foldl_append

theorem foldl_absorb (e : Extremum) (k : Kernel) (vs : List k.Value) (s : k.Value × Bool) :
    vs.foldl (k.absorb e) s = (vs.foldl (k.combine e) s.1, s.2 || decide (vs ≠ [])) := by
  induction vs generalizing s with
  | nil => simp
  | cons v vs ih => simp [ih, absorb]

/-- A slot holds its values combined, and is valid if there is one. -/
theorem contents_eq (e : Extremum) (k : Kernel) (vs : List k.Value) :
    k.contents e vs = (vs.foldl (k.combine e) (k.start e), decide (vs ≠ [])) := by
  rw [contents, foldl_absorb, Bool.false_or]

end GroupedExtrema.Kernel
