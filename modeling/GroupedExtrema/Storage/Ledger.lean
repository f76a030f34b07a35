import GroupedExtrema.Storage.Budget

/-!
# Ledgers

A ledger is a budget together with the reservations made from it. Every attempt to reserve takes the
next number, granted or not; a reservation is live from its grant until its release.
-/

namespace GroupedExtrema

/-- A budget and, by number, the reservations that are live. -/
structure Ledger where
  budget : Budget
  entries : Array (Option Reservation)
deriving DecidableEq, Inhabited

namespace Ledger

/-- A ledger without entries. -/
def ofLimit (limit : Option UInt64) : Ledger := ⟨.ofLimit limit, #[]⟩

/-- Reserves bytes under the next number. A refusal uses the number up too. -/
def reserve (l : Ledger) (bytes : Nat) : Except Error Reservation × Ledger :=
  match l.budget.reserve bytes with
  | .ok (r, budget) => (.ok r, { budget := budget, entries := l.entries.push (some r) })
  | .error e => (.error e, { l with entries := l.entries.push none })

/-- Releases the live reservation with a number; none if there is no such reservation. -/
def release? (l : Ledger) (number : Nat) : Option Ledger :=
  match l.entries[number]? with
  | some (some r) =>
    some { budget := l.budget.release r, entries := l.entries.setIfInBounds number none }
  | _ => none

/-- The live reservations, oldest first. -/
def live (l : Ledger) : List Reservation := l.entries.toList.filterMap id

end Ledger

end GroupedExtrema
