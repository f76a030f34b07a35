import GroupedExtrema.Error

/-!
# Memory budgets

A budget counts the bytes that are reserved and refuses a reservation that would take the count past
its limit. A refused reservation changes nothing; a granted one is given back with `release`.
-/

namespace GroupedExtrema

/-- Bytes held against a budget. -/
structure Reservation where
  bytes : Nat
deriving DecidableEq, Inhabited

/-- A count of reserved bytes with an optional limit. -/
structure Budget where
  limit : Option UInt64
  reserved : Nat
deriving DecidableEq, Inhabited

namespace Budget

/-- A budget of which nothing is reserved. -/
def ofLimit (limit : Option UInt64) : Budget := ⟨limit, 0⟩

/-- The largest count a budget allows: its limit, or the largest 64-bit number. -/
def ceiling (b : Budget) : Nat :=
  match b.limit with
  | some l => l.toNat
  | none => 2 ^ 64 - 1

/-- Reserves bytes, if the count stays within the ceiling. -/
def reserve (b : Budget) (bytes : Nat) : Except Error (Reservation × Budget) :=
  if b.reserved + bytes ≤ b.ceiling then
    .ok (⟨bytes⟩, { b with reserved := b.reserved + bytes })
  else .error (.overBudget bytes b.reserved b.limit)

/-- Gives a reservation back. -/
def release (b : Budget) (r : Reservation) : Budget :=
  { b with reserved := b.reserved - r.bytes }

/-- Gives several reservations back. -/
def releaseAll (b : Budget) (rs : List Reservation) : Budget :=
  rs.foldl release b

end Budget

end GroupedExtrema
