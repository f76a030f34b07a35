import GroupedExtrema.Error

/-!
# Batches

A batch is a list of columns with the same number of rows.
-/

namespace GroupedExtrema

/-- Columns of equal length. -/
structure Batch where
  columns : List Column
  /-- The common number of rows; zero where there is no column. -/
  rows : Nat
deriving BEq, Inhabited

namespace Batch

/-- The batch without columns. -/
def empty : Batch := ⟨[], 0⟩

/-- The first column, counted from `index`, that does not have `rows` rows. -/
def checkLengths (rows : Nat) : Nat → List Column → Except Error Unit
  | _, [] => .ok ()
  | index, c :: cs =>
    if c.length = rows then checkLengths rows (index + 1) cs
    else .error (.columnLength rows c.length index)

/-- The batch of some columns, which must all be as long as the first one. -/
def ofColumns : List Column → Except Error Batch
  | [] => .ok empty
  | c :: cs =>
    match checkLengths c.length 0 (c :: cs) with
    | .ok () => .ok ⟨c :: cs, c.length⟩
    | .error e => .error e

/-- The column at an index. -/
def column? (b : Batch) (i : Nat) : Option Column := b.columns[i]?

end Batch

end GroupedExtrema
