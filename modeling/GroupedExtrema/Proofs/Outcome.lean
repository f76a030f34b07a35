import GroupedExtrema.Proofs.Accounting

/-!
# What a call comes to

A call does three things in order: it may be refused for what it is given, it asks the budget for
the chunks that it lacks, and it does its work on the table, for which the budget is not asked any
more. `step_eq` says so in one equation for all calls.

So the budget decides whether a call does its work, and not what it does. The number of chunks after
a call is known too: if it succeeds, all chunks that it needs are there, and if it fails, there are
no fewer than before and no more than it needs.
-/

namespace GroupedExtrema

/-! ### Running out of memory -/

/-- The error says that there was no memory left to grow. -/
def Error.IsExhaustion : Error → Prop
  | overBudget _ _ _ => True
  | capacityOverflow => True
  | _ => False

theorem Budget.isExhaustion_of_reserve {b : Budget} {bytes : Nat} {err : Error}
    (h : b.reserve bytes = .error err) : err.IsExhaustion := by
  unfold reserve at h
  split at h
  · exact absurd h (by simp)
  · rw [← Except.error.inj h]
    exact trivial

namespace ChunkStore

variable {α : Type} {s : ChunkStore α} {b : Budget} {fill : α} {err : Error}

theorem isExhaustion_of_addChunk (h : (s.addChunk b fill).1 = .error err) : err.IsExhaustion := by
  unfold addChunk at h
  split at h
  case h_1 e he =>
      rw [← Except.error.inj h]
      exact Budget.isExhaustion_of_reserve he
  case h_2 =>
      split at h
      · exact absurd h (by simp)
      · rw [← Except.error.inj h]
        exact trivial

theorem isExhaustion_of_addChunks {n : Nat} (h : (addChunks n s b fill).1 = .error err) :
    err.IsExhaustion := by
  induction n generalizing s b with
  | zero => exact absurd h (by simp [addChunks])
  | succ n ih =>
      unfold addChunks at h
      split at h
      case h_1 => exact ih h
      case h_2 e b' he =>
          rw [← Except.error.inj h]
          exact isExhaustion_of_addChunk (congrArg Prod.fst he)

theorem isExhaustion_of_grow {chunks : Nat} (h : (s.grow b chunks fill).1 = .error err) :
    err.IsExhaustion := by
  unfold grow at h
  split at h
  · exact absurd h (by simp)
  · split at h
    · rw [← Except.error.inj h]
      exact trivial
    · split at h
      case h_1 => exact absurd h (by simp)
      case h_2 e grown b' he =>
          rw [← Except.error.inj h]
          exact isExhaustion_of_addChunks (congrArg Prod.fst he)

end ChunkStore

/-- A table fails to grow for no other reason. -/
theorem SlotTable.isExhaustion_of_ensureChunks {α : Type} {t : SlotTable α} {b : Budget}
    {chunks : Nat} {err : Error} (h : (t.ensureChunks b chunks).1 = .error err) :
    err.IsExhaustion := by
  unfold ensureChunks at h
  split at h
  case isTrue => exact absurd h (by simp)
  case isFalse =>
      split at h
      case h_1 e cells b' he =>
          rw [← Except.error.inj h]
          exact ChunkStore.isExhaustion_of_grow (congrArg Prod.fst he)
      case h_2 added cells b' he =>
          split at h
          case h_1 e words b'' he' =>
              rw [← Except.error.inj h]
              exact ChunkStore.isExhaustion_of_grow (congrArg Prod.fst he')
          case h_2 => exact absurd h (by simp)

/-! ### The parts of a call -/

namespace Call

/-- Why a call is refused before the budget is asked, if it is. -/
def refusal? : Call → Option Error
  | accumulate input ordinals =>
    if input.length < ordinals.length then some (.inputTooShort input.length ordinals.length)
    else none
  | resize _ => none
  | reset => none

/-- The number of chunks that a call needs. -/
def chunks (l : ChunkLayout) : Call → Nat
  | accumulate _ ordinals => l.chunksForOrdinals ordinals
  | resize chunks => chunks
  | reset => 0

end Call

namespace Accumulator

variable {k : Kernel} {a : Accumulator k} {l : ChunkLayout} {b : Budget} {c : Call}

/-- What a call does once its chunks exist. -/
def perform (a : Accumulator k) : Call → Except Error Unit × Accumulator k
  | .accumulate input ordinals => a.foldColumn input ordinals
  | .resize _ => (.ok (), a)
  | .reset => (.ok (), a.reset)

/-- Only growing changes the number of chunks. -/
@[simp] theorem size_perform (a : Accumulator k) (c : Call) : (a.perform c).2.size = a.size := by
  cases c with
  | accumulate input ordinals => exact a.size_foldColumn input ordinals
  | resize chunks => rfl
  | reset => exact a.slots.size_reset

/-- A call is refused, or the budget does not grant its growth, and then nothing has changed; or its
growth is charged, and the call does its work. -/
theorem step_eq (h : a.slots.WellFormed) (b : Budget) (c : Call) :
    a.step b c =
      match c.refusal? with
      | some err => (.error err, a, b)
      | none =>
        match (a.slots.ensureChunks b (c.chunks a.layout)).1 with
        | .error err => (.error err, a, b)
        | .ok () =>
          (((a.extend (c.chunks a.layout - a.size)).perform c).1,
            ((a.extend (c.chunks a.layout - a.size)).perform c).2,
            b.charge ((c.chunks a.layout - a.size) * a.slots.chunkBytes)) := by
  have hgrow := h.ensureChunks_cases b (c.chunks a.layout)
  cases c with
  | accumulate input ordinals =>
      simp only [step, accumulate_eq, Call.refusal?, SlotTable.ensureOrdinals_eq]
      by_cases hshort : input.length < ordinals.length
      · simp only [if_pos hshort]
      · simp only [if_neg hshort]
        rw [show (Call.accumulate input ordinals).chunks a.layout =
          a.slots.layout.chunksForOrdinals ordinals from rfl] at hgrow ⊢
        rcases hgrow with ⟨err, heq⟩ | heq
        · rw [heq]
        · rw [heq]
          rfl
  | resize chunks =>
      simp only [step, resize, Call.refusal?]
      rcases hgrow with ⟨err, heq⟩ | heq
      · rw [show (Call.resize chunks).chunks a.layout = chunks from rfl] at heq ⊢
        rw [heq]
      · rw [show (Call.resize chunks).chunks a.layout = chunks from rfl] at heq ⊢
        rw [heq]
        rfl
  | reset =>
      -- A reset needs no chunks, and no chunks are always granted.
      have hzero : a.slots.ensureChunks b 0 = (.ok (), a.slots, b) := if_pos (Nat.zero_le _)
      simp only [step, Call.refusal?, Call.chunks, hzero, Nat.zero_sub, Nat.zero_mul, extend_zero,
        Budget.charge_zero, perform]

namespace UsesLayout

theorem wellFormed (h : a.UsesLayout l) : a.slots.WellFormed :=
  (SlotTable.Reachable.hasShape h).wellFormed

theorem layout_eq (h : a.UsesLayout l) : a.layout = l :=
  (SlotTable.Reachable.hasShape h).layout_eq

/-- What uses a layout has the cells of its kernel. -/
theorem fits (h : a.UsesLayout l) : a.Fits := by
  have hshape := SlotTable.Reachable.hasShape h
  have hlayout : a.slots.layout = l := hshape.layout_eq
  refine ⟨hshape.wellFormed, ?_, hshape.bytes_cells, hshape.identity_eq⟩
  rw [hlayout]
  exact hshape.length_cells

end UsesLayout

/-! ### Failures -/

/-- A call that fails leaves no trace, unless it is a column of the wrong type that it fails for;
then it leaves the slots that it has made for the ordinals. -/
theorem Fits.error_step (h : a.Fits) (hc : c.WellFormed) {err : Error}
    (herr : (a.step b c).1 = .error err) :
    (c.refusal? = some err ∨ err.IsExhaustion) ∧ (a.step b c).2.1 = a ∨
      ∃ input ordinals, c = .accumulate input ordinals ∧
        err = .wrongInput a.name input.datatype ∧
        (a.step b c).2.1 = a.extend (a.missing ordinals) := by
  rw [step_eq h.wellFormed] at herr ⊢
  cases hrefusal : c.refusal? with
  | some err' =>
      simp only [hrefusal] at herr ⊢
      exact Or.inl ⟨Or.inl (congrArg some (Except.error.inj herr)), trivial⟩
  | none =>
      cases hgrow : (a.slots.ensureChunks b (c.chunks a.layout)).1 with
      | error err' =>
          simp only [hrefusal, hgrow] at herr ⊢
          obtain rfl := Except.error.inj herr
          exact Or.inl ⟨Or.inr (SlotTable.isExhaustion_of_ensureChunks hgrow), trivial⟩
      | ok u =>
          simp only [hrefusal, hgrow] at herr ⊢
          cases c with
          | accumulate input ordinals =>
              have hlen : ordinals.length ≤ input.length := by
                refine Nat.not_lt.mp fun hlt => ?_
                rw [Call.refusal?, if_pos hlt] at hrefusal
                exact absurd hrefusal (by simp)
              rcases (h.extend (a.missing ordinals)).foldColumn_cases hc hlen
                (a.slots.slot_chunk_lt_extend ordinals) with ⟨t, heq, -⟩ | heq
              · exact absurd ((congrArg Prod.fst heq).symm.trans herr) (by simp)
              · refine Or.inr ⟨input, ordinals, rfl, ?_, congrArg Prod.snd heq⟩
                exact Except.error.inj (herr.symm.trans (congrArg Prod.fst heq))
          | resize chunks => exact absurd herr (by simp [perform])
          | reset => exact absurd herr (by simp [perform])

/-! ### The number of chunks -/

theorem size_create {e : Extremum} {t : DataType} (h : create k e t l = .ok a) : a.size = 0 := by
  rw [eq_of_create h]
  rfl

/-- A call that succeeds makes the chunks that it needs. -/
theorem size_step_of_ok (h : a.slots.WellFormed) (hok : (a.step b c).1 = .ok ()) :
    (a.step b c).2.1.size = max a.size (c.chunks a.layout) := by
  rw [step_eq h] at hok ⊢
  split at hok
  case h_1 => exact absurd hok (by simp)
  case h_2 =>
      split at hok
      case h_1 => exact absurd hok (by simp)
      case h_2 =>
          simp only [size_perform, size_extend]
          omega

/-- Any call leaves at least the chunks there were and at most those that it needs besides. -/
theorem size_step_bounds (h : a.slots.WellFormed) (b : Budget) (c : Call) :
    a.size ≤ (a.step b c).2.1.size ∧
      (a.step b c).2.1.size ≤ max a.size (c.chunks a.layout) := by
  rw [step_eq h]
  split
  case h_1 => exact ⟨Nat.le_refl _, Nat.le_max_left _ _⟩
  case h_2 =>
      split
      case h_1 => exact ⟨Nat.le_refl _, Nat.le_max_left _ _⟩
      case h_2 =>
          simp only [size_perform, size_extend]
          omega

end Accumulator

end GroupedExtrema
