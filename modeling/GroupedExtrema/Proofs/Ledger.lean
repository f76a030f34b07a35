import GroupedExtrema.Proofs.Growth
import GroupedExtrema.Storage.Ledger

/-!
# Clients that share a ledger

Any number of clients reserve bytes from one ledger and drop what they have been granted, each at its
own pace. A budget only counts; whose the counted bytes are is not written down in it. What ties the
count to the reservations is an invariant: the count is the sum of the bytes of all live
reservations, and the budget allows it. An attempt to reserve keeps it, granted or not, and so does
the release of any live reservation. Hence it holds after every schedule, whichever client takes each
of the turns.

From the invariant follows when a reservation is granted, and that a release never takes away more
than has been counted.
-/

namespace GroupedExtrema

namespace Ledger

variable {l l' : Ledger} {bytes number : Nat} {r : Reservation} {err : Error}
  {limit : Option UInt64}

/-! ### One step -/

/-- A grant charges the budget and adds a live reservation of the bytes asked for. -/
theorem reserve_of_ok (h : (l.reserve bytes).1 = .ok r) :
    r = ⟨bytes⟩ ∧ l.budget.Affords bytes ∧
      (l.reserve bytes).2.budget = l.budget.charge bytes ∧
      (l.reserve bytes).2.live = l.live ++ [⟨bytes⟩] := by
  by_cases haffords : l.budget.Affords bytes
  · simp only [reserve, Budget.reserve_of_affords haffords] at h ⊢
    exact ⟨(Except.ok.inj h).symm, haffords, trivial, by simp [live]⟩
  · obtain ⟨e, he⟩ := Budget.reserve_of_not_affords haffords
    simp [reserve, he] at h

/-- A refusal uses up a number and changes nothing else. -/
theorem reserve_of_error (h : (l.reserve bytes).1 = .error err) :
    (l.reserve bytes).2.budget = l.budget ∧ (l.reserve bytes).2.live = l.live := by
  by_cases haffords : l.budget.Affords bytes
  · simp [reserve, Budget.reserve_of_affords haffords] at h
  · obtain ⟨e, he⟩ := Budget.reserve_of_not_affords haffords
    simp [reserve, he, live]

/-- A ledger grants exactly what its budget affords. -/
theorem exists_reserve_ok_iff (l : Ledger) (bytes : Nat) :
    (∃ r, (l.reserve bytes).1 = .ok r) ↔ l.budget.Affords bytes := by
  refine ⟨fun ⟨r, hr⟩ => (reserve_of_ok hr).2.1, fun haffords => ?_⟩
  simp [reserve, Budget.reserve_of_affords haffords]

/-- Clearing an entry takes its reservation out of the live ones. -/
theorem perm_filterMap_set {α : Type} {xs : List (Option α)} {i : Nat} {a : α}
    (h : xs[i]? = some (some a)) :
    (xs.filterMap id).Perm (a :: (xs.set i none).filterMap id) := by
  induction xs generalizing i with
  | nil => exact absurd h (by simp)
  | cons x xs ih =>
      cases i with
      | zero =>
          obtain rfl : x = some a := Option.some.inj h
          exact List.Perm.refl _
      | succ i =>
          have hrest := ih (i := i) h
          cases x with
          | none => exact hrest
          | some b => exact (hrest.cons b).trans (List.Perm.swap a b _)

/-- The reservation with a number is released if it is live, and then it is live no more. -/
theorem release?_eq (h : l.entries[number]? = some (some r)) :
    ∃ l', l.release? number = some l' ∧ l'.budget = l.budget.release r ∧
      l.live.Perm (r :: l'.live) := by
  refine ⟨_, by rw [release?, h], rfl, ?_⟩
  have hentry : l.entries.toList[number]? = some (some r) := Array.getElem?_toList.trans h
  rw [live, live, Array.toList_setIfInBounds]
  exact perm_filterMap_set hentry

/-- Nothing else can be released. -/
theorem exists_of_release? (h : l.release? number = some l') :
    ∃ r, l.entries[number]? = some (some r) := by
  unfold release? at h
  split at h
  case h_1 r hentry => exact ⟨r, hentry⟩
  case h_2 => exact absurd h (by simp)

/-! ### The invariant -/

/-- Bytes of all live reservations. -/
def liveBytes (l : Ledger) : Nat := (l.live.map (·.bytes)).sum

/-- The budget has its limit, counts the bytes of the live reservations, and allows them. -/
structure Balanced (limit : Option UInt64) (l : Ledger) : Prop where
  limit_eq : l.budget.limit = limit
  reserved_eq : l.budget.reserved = l.liveBytes
  reserved_le : l.budget.reserved ≤ l.budget.ceiling

/-- The count may rise up to the limit, or without one up to the largest number of 64 bits. -/
theorem Balanced.ceiling_eq (h : l.Balanced limit) :
    l.budget.ceiling = (limit.map (·.toNat)).getD (2 ^ 64 - 1) := by
  rw [← h.limit_eq]
  unfold Budget.ceiling
  cases l.budget.limit <;> rfl

theorem balanced_ofLimit (limit : Option UInt64) : Balanced limit (.ofLimit limit) :=
  ⟨rfl, rfl, Nat.zero_le _⟩

/-- A request keeps the balance, granted or not. -/
theorem Balanced.reserve (h : l.Balanced limit) (bytes : Nat) :
    (l.reserve bytes).2.Balanced limit := by
  cases hresult : (l.reserve bytes).1 with
  | ok r =>
      obtain ⟨-, haffords, hbudget, hlive⟩ := reserve_of_ok hresult
      have hbytes : (l.reserve bytes).2.liveBytes = l.liveBytes + bytes := by
        rw [liveBytes, hlive, List.map_append, List.sum_append]
        rfl
      refine ⟨?_, ?_, ?_⟩
      · rw [hbudget]
        exact h.limit_eq
      · rw [hbudget, hbytes, ← h.reserved_eq]
        rfl
      · rw [hbudget]
        exact haffords
  | error err =>
      obtain ⟨hbudget, hlive⟩ := reserve_of_error hresult
      refine ⟨?_, ?_, ?_⟩
      · rw [hbudget]
        exact h.limit_eq
      · rw [hbudget, liveBytes, hlive]
        exact h.reserved_eq
      · rw [hbudget]
        exact h.reserved_le

/-- A live reservation has been counted, so its release uncounts exactly its bytes. -/
theorem Balanced.exists_release? (h : l.Balanced limit)
    (hentry : l.entries[number]? = some (some r)) :
    ∃ l', l.release? number = some l' ∧ l.live.Perm (r :: l'.live) ∧ l'.Balanced limit ∧
      l'.budget.reserved + r.bytes = l.budget.reserved := by
  obtain ⟨l', hl', hbudget, hperm⟩ := release?_eq hentry
  have hbytes : l.liveBytes = r.bytes + l'.liveBytes := (hperm.map _).sum_nat
  have hreserved : l'.budget.reserved = l.liveBytes - r.bytes := by
    rw [hbudget, ← h.reserved_eq]
    rfl
  have hceiling : l'.budget.ceiling = l.budget.ceiling := by
    rw [hbudget]
    rfl
  have hcount := h.reserved_eq
  have hle := h.reserved_le
  refine ⟨l', hl', hperm, ⟨?_, by omega, by omega⟩, by omega⟩
  rw [hbudget]
  exact h.limit_eq

theorem Balanced.release? (h : l.Balanced limit) (hl' : l.release? number = some l') :
    l'.Balanced limit := by
  obtain ⟨r, hentry⟩ := exists_of_release? hl'
  obtain ⟨l'', hl'', -, hbalanced, -⟩ := h.exists_release? hentry
  obtain rfl := Option.some.inj (hl''.symm.trans hl')
  exact hbalanced

/-- What the ledger of a limit guarantees its clients. -/
structure KeepsCount (limit : Option UInt64) (l : Ledger) : Prop where
  reserved_eq : l.budget.reserved = (l.live.map (·.bytes)).sum
  le_limit : ∀ m, limit = some m → l.budget.reserved ≤ m.toNat
  le_max : l.budget.reserved ≤ 2 ^ 64 - 1
  /-- A request is granted if and only if the sum stays within the limit, or without one within 64
  bits. -/
  ok_iff : ∀ bytes : UInt64, (∃ r, (l.reserve bytes.toNat).1 = .ok r) ↔
    (l.live.map (·.bytes)).sum + bytes.toNat ≤ (limit.map (·.toNat)).getD (2 ^ 64 - 1)
  of_ok : ∀ (bytes : UInt64) r, (l.reserve bytes.toNat).1 = .ok r → r.bytes = bytes.toNat ∧
    (l.reserve bytes.toNat).2.budget.reserved = l.budget.reserved + bytes.toNat ∧
    (l.reserve bytes.toNat).2.live = l.live ++ [r]
  of_error : ∀ (bytes : UInt64) err, (l.reserve bytes.toNat).1 = .error err →
    (l.reserve bytes.toNat).2.budget = l.budget ∧ (l.reserve bytes.toNat).2.live = l.live
  /-- Every live reservation can be released, and its bytes are among those that are counted. -/
  release : ∀ number r, l.entries[number]? = some (some r) → r.bytes ≤ l.budget.reserved ∧
    ∃ l', l.release? number = some l' ∧ l.live.Perm (r :: l'.live) ∧
      l'.budget.reserved + r.bytes = l.budget.reserved
  of_live_eq_nil : l.live = [] → l.budget.reserved = 0

theorem Balanced.keepsCount (h : l.Balanced limit) : l.KeepsCount limit where
  reserved_eq := h.reserved_eq
  le_limit := by
    intro m hm
    have hle := h.reserved_le
    rw [h.ceiling_eq, hm] at hle
    exact hle
  le_max := by
    refine Nat.le_trans h.reserved_le ?_
    rw [h.ceiling_eq]
    cases limit with
    | some m => exact Nat.le_pred_of_lt m.toNat_lt
    | none => exact Nat.le_refl _
  ok_iff := by
    intro bytes
    rw [exists_reserve_ok_iff, Budget.Affords, h.reserved_eq, h.ceiling_eq]
    exact Iff.rfl
  of_ok := by
    intro bytes r hr
    obtain ⟨rfl, -, hbudget, hlive⟩ := reserve_of_ok hr
    refine ⟨rfl, ?_, hlive⟩
    rw [hbudget]
    rfl
  of_error := fun _ _ herr => reserve_of_error herr
  release := by
    intro number r hentry
    obtain ⟨l', hl', hperm, -, hreserved⟩ := h.exists_release? hentry
    exact ⟨Nat.le.intro ((Nat.add_comm _ _).trans hreserved), l', hl', hperm, hreserved⟩
  of_live_eq_nil := by
    intro hnil
    rw [h.reserved_eq, liveBytes, hnil]
    rfl

end Ledger

/-! ### Clients -/

/-- What a client does at one of its turns. It knows its reservations by the order in which it has
asked for them. -/
inductive Turn where
  /-- Asks for bytes. -/
  | reserve (bytes : UInt64)
  /-- Drops what it has been granted at its `attempt`-th request, if it holds it still. -/
  | drop (attempt : Nat)

/-- A ledger, and for every client the numbers of the requests that it has made. -/
structure Sharing (ι : Type) where
  ledger : Ledger
  numbers : ι → List Nat

namespace Sharing

variable {ι : Type} [DecidableEq ι]

/-- Clients that have asked for nothing yet. -/
def ofLimit (ι : Type) (limit : Option UInt64) : Sharing ι := ⟨.ofLimit limit, fun _ => []⟩

/-- One turn of a client. -/
def turn (s : Sharing ι) (client : ι) : Turn → Sharing ι
  | .reserve bytes =>
    { ledger := (s.ledger.reserve bytes.toNat).2
      numbers := fun c =>
        if c = client then s.numbers c ++ [s.ledger.entries.size] else s.numbers c }
  | .drop attempt =>
    match (s.numbers client)[attempt]?.bind s.ledger.release? with
    | some ledger => { s with ledger := ledger }
    | none => s

/-- The turns of a schedule, one after the other. Whatever the clients do and however their turns
are interleaved, it is a schedule. -/
def run (s : Sharing ι) : List (ι × Turn) → Sharing ι
  | [] => s
  | (client, t) :: schedule => run (s.turn client t) schedule

variable {s : Sharing ι} {limit : Option UInt64}

theorem balanced_turn (h : s.ledger.Balanced limit) (client : ι) (t : Turn) :
    (s.turn client t).ledger.Balanced limit := by
  cases t with
  | reserve bytes => exact h.reserve bytes.toNat
  | drop attempt =>
      simp only [turn]
      split
      case h_1 l' hl' =>
          obtain ⟨number, -, hrelease⟩ := Option.bind_eq_some_iff.mp hl'
          exact h.release? hrelease
      case h_2 => exact h

theorem balanced_run (h : s.ledger.Balanced limit) (schedule : List (ι × Turn)) :
    (s.run schedule).ledger.Balanced limit := by
  induction schedule generalizing s with
  | nil => exact h
  | cons t ts ih => exact ih (balanced_turn h t.1 t.2)

/-- The ledger keeps count under every schedule of any number of clients. -/
theorem keepsCount_run (limit : Option UInt64) (schedule : List (ι × Turn)) :
    ((ofLimit ι limit).run schedule).ledger.KeepsCount limit :=
  (balanced_run (Ledger.balanced_ofLimit limit) schedule).keepsCount

end Sharing

end GroupedExtrema
