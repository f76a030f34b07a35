import GroupedExtrema.Proofs.History
import GroupedExtrema.Proofs.Slot

/-!
# Accumulating a column

Folding the rows of a column adds to every slot the values under its number, by induction over the
ordinals with the law for one row as the step. An accumulator that is given a column does that, or
fails, and then it has folded nothing: either it is exactly as before, or it has grown for its
ordinals and then found that the column has the wrong type.
-/

namespace GroupedExtrema

namespace Kernel

/-- The second table is the first one with rows folded into the slots of the ordinals. -/
structure Folds (e : Extremum) (k : Kernel) (rows : List (Option k.Value)) (ordinals : List UInt32)
    (t t' : SlotTable k.Cell) : Prop where
  chunk_lt : ∀ o ∈ ordinals, (t.layout.slot o.toNat).chunk < t.size
  fits : Fits e k t'
  size_eq : t'.size = t.size
  layout_eq : t'.layout = t.layout
  slot?_eq : ∀ n, k.slot? t' n =
    (k.slot? t n).map ((valuesUnder rows ordinals n).foldl (k.absorb e))

variable {e : Extremum} {k : Kernel} {t : SlotTable k.Cell}

/-- Rows that contribute nothing leave the table as it is. -/
theorem Fits.folds_self (h : Fits e k t) {rows : List (Option k.Value)} {ordinals : List UInt32}
    (hslots : ∀ o ∈ ordinals, (t.layout.slot o.toNat).chunk < t.size)
    (hnil : ∀ n, valuesUnder rows ordinals n = []) : Folds e k rows ordinals t t where
  chunk_lt := hslots
  fits := h
  size_eq := rfl
  layout_eq := rfl
  slot?_eq := by
    intro n
    rw [hnil, show ([] : List k.Value).foldl (k.absorb e) = id from rfl, Option.map_id, id]

/-- A row and then further rows fold as all of them do. -/
theorem Folds.cons {o : UInt32} {os : List UInt32} {v : k.Value} {valid : Bool}
    {rows : List (Option k.Value)} {t' t'' : SlotTable k.Cell}
    (ho : (t.layout.slot o.toNat).chunk < t.size) (hrow : k.foldRow e t o (v, valid) = some t')
    (h : Folds e k rows os t' t'') :
    Folds e k ((if valid then some v else none) :: rows) (o :: os) t t'' where
  chunk_lt := by
    intro o' ho'
    rcases List.mem_cons.mp ho' with rfl | ho'
    · exact ho
    · have hlt := h.chunk_lt o' ho'
      rwa [layout_foldRow hrow, size_foldRow hrow] at hlt
  fits := h.fits
  size_eq := h.size_eq.trans (size_foldRow hrow)
  layout_eq := h.layout_eq.trans (layout_foldRow hrow)
  slot?_eq := by
    intro n
    rw [h.slot?_eq, valuesUnder_cons]
    by_cases hn : n = o.toNat
    · subst hn
      rw [slot?_foldRow_self hrow, Option.map_map, if_pos rfl]
      congr 1
      funext s
      cases valid <;> simp [absorbRow]
    · rw [slot?_foldRow_other hrow hn, if_neg (Ne.symm hn)]
      rfl

/-- Rows can be folded if each can be read and the slot of each ordinal exists. The rows are those
from index `i` on, as many as there are ordinals. -/
theorem Fits.foldRows (h : Fits e k t) {read : Nat → Option (k.Value × Bool)}
    (entries : List (Option k.Value)) (i : Nat) {ordinals : List UInt32}
    (hslots : ∀ o ∈ ordinals, (t.layout.slot o.toNat).chunk < t.size)
    (hread : ∀ j, i ≤ j → j < i + ordinals.length → ∃ v valid, read j = some (v, valid) ∧
      entries[j]? = some (if valid then some v else none)) :
    ∃ t', k.foldRows e read i ordinals t = some t' ∧
      Folds e k (entries.drop i) ordinals t t' := by
  induction ordinals generalizing i t with
  | nil => exact ⟨t, rfl, h.folds_self hslots fun _ => rfl⟩
  | cons o os ih =>
      -- The first ordinal takes row `i`; the others take the rows from `i + 1` on.
      obtain ⟨v, valid, hrow, hentry⟩ := hread i (Nat.le_refl i) (by simp)
      have ho := hslots o List.mem_cons_self
      obtain ⟨t', ht'⟩ := h.exists_foldRow ho (v, valid)
      obtain ⟨t'', ht'', hfolds⟩ := ih (t := t') (h.foldRow ht') (i + 1)
        (fun o' ho' => by
          rw [layout_foldRow ht', size_foldRow ht']
          exact hslots o' (List.mem_cons_of_mem o ho'))
        (fun j hij hj => hread j (by omega) (by rw [List.length_cons]; omega))
      refine ⟨t'', ?_, ?_⟩
      · simp only [Kernel.foldRows, hrow, ht']
        exact ht''
      · obtain ⟨hi, hget⟩ := List.getElem?_eq_some_iff.mp hentry
        rw [List.drop_eq_getElem_cons hi, hget]
        exact hfolds.cons ho ht'

end Kernel

namespace Accumulator

variable {k : Kernel} {a : Accumulator k}

/-- A new accumulator has no chunks. -/
theorem eq_of_create {e : Extremum} {t : DataType} {l : ChunkLayout} (h : create k e t l = .ok a) :
    a = ⟨e, t, .empty l (k.cellsPerChunk l) k.cellBytes (k.identity e)⟩ := by
  unfold create at h
  split at h
  case isTrue => exact (Except.ok.inj h).symm
  case isFalse => exact absurd h (by simp)

/-- The accumulator with `n` more chunks of slots into which nothing has been folded. -/
def extend (a : Accumulator k) (n : Nat) : Accumulator k := { a with slots := a.slots.extend n }

@[simp] theorem size_extend (a : Accumulator k) (n : Nat) : (a.extend n).size = a.size + n :=
  a.slots.size_extend n

@[simp] theorem extend_zero (a : Accumulator k) : a.extend 0 = a := by
  simp [extend]

/-! ### Folding a column -/

/-- Folds a column once the slots of the ordinals exist. -/
def foldColumn (a : Accumulator k) (input : Column) (ordinals : List UInt32) :
    Except Error Unit × Accumulator k :=
  match input with
  | .null _ => (.ok (), a)
  | input =>
    match k.reader? input with
    | none => (.error (.wrongInput a.name input.datatype), a)
    | some read =>
      match k.foldRows a.extremum read 0 ordinals a.slots with
      | none => (.error .outOfBounds, a)
      | some slots => (.ok (), { a with slots := slots })

/-- A column that the kernel reads is folded row by row. -/
theorem foldColumn_of_reader? {input : Column} {read : Nat → Option (k.Value × Bool)}
    (h : k.reader? input = some read) (a : Accumulator k) (ordinals : List UInt32) :
    a.foldColumn input ordinals =
      match k.foldRows a.extremum read 0 ordinals a.slots with
      | none => (.error .outOfBounds, a)
      | some slots => (.ok (), { a with slots := slots }) := by
  cases input with
  | null n =>
      rw [Kernel.reader?_null] at h
      exact absurd h (by simp)
  | _ => simp only [foldColumn, h]

@[simp] theorem size_foldColumn (a : Accumulator k) (input : Column) (ordinals : List UInt32) :
    (a.foldColumn input ordinals).2.size = a.size := by
  unfold foldColumn
  split
  case h_1 => rfl
  case h_2 =>
      split
      case h_1 => rfl
      case h_2 =>
          split
          case h_1 => rfl
          case h_2 t ht => exact Kernel.size_foldRows ht

/-- A column that is long enough is folded as soon as the slots of the ordinals exist. -/
theorem accumulate_eq (a : Accumulator k) (budget : Budget) (input : Column)
    (ordinals : List UInt32) :
    a.accumulate budget input ordinals =
      if input.length < ordinals.length then
        (.error (.inputTooShort input.length ordinals.length), a, budget)
      else
        match a.slots.ensureOrdinals budget ordinals with
        | (.error err, slots, budget) => (.error err, { a with slots := slots }, budget)
        | (.ok (), slots, budget) =>
          ((foldColumn { a with slots := slots } input ordinals).1,
            (foldColumn { a with slots := slots } input ordinals).2, budget) := by
  unfold accumulate
  split
  case isTrue => rfl
  case isFalse =>
      rcases a.slots.ensureOrdinals budget ordinals with ⟨⟨err⟩ | ⟨⟨⟩⟩, slots, budget'⟩
      · rfl
      · cases hread : k.reader? input with
        | none =>
            cases input with
            | null rows => rfl
            | _ =>
                simp only [foldColumn, hread]
                rfl
        | some read =>
            dsimp only
            rw [foldColumn_of_reader? hread]
            cases input with
            | null rows =>
                rw [Kernel.reader?_null] at hread
                exact absurd hread (by simp)
            | _ =>
                simp only [hread]
                cases k.foldRows a.extremum read 0 ordinals slots <;> rfl

/-! ### What can come of it -/

/-- The table of the accumulator belongs to its kernel and extremum. -/
def Fits (a : Accumulator k) : Prop := Kernel.Fits a.extremum k a.slots

theorem Fits.extend (h : a.Fits) (n : Nat) : (a.extend n).Fits := Kernel.Fits.extend h n

/-- Where the slots of the ordinals exist, a column is folded completely, or it has the wrong type
and nothing changes. -/
theorem Fits.foldColumn_cases (h : a.Fits) {input : Column} (hinput : input.WellFormed)
    {ordinals : List UInt32} (hlen : ordinals.length ≤ input.length)
    (hslots : ∀ o ∈ ordinals, (a.slots.layout.slot o.toNat).chunk < a.slots.size) :
    (∃ t, a.foldColumn input ordinals = (.ok (), { a with slots := t }) ∧
        ordinals.length ≤ (k.entries input).length ∧
        Kernel.Folds a.extremum k (k.entries input) ordinals a.slots t) ∨
      a.foldColumn input ordinals = (.error (.wrongInput a.name input.datatype), a) := by
  cases hread : k.reader? input with
  | none =>
      cases input with
      | null rows =>
          -- No kernel reads a null column, yet it is no wrong input.
          refine Or.inl ⟨a.slots, rfl, ?_, Kernel.Fits.folds_self h hslots fun n => ?_⟩
          · rw [Kernel.entries_null, List.length_replicate]
            exact hlen
          · rw [Kernel.entries_null, valuesUnder_replicate_none]
      | _ =>
          refine Or.inr ?_
          simp only [foldColumn, hread]
  | some read =>
      obtain ⟨t, ht, hfolds⟩ := Kernel.Fits.foldRows h (k.entries input) 0 hslots fun j _ hj =>
        Kernel.read_of_reader? hinput hread (by omega)
      rw [List.drop_zero] at hfolds
      rw [foldColumn_of_reader? hread, ht]
      exact Or.inl ⟨t, rfl, Kernel.length_entries hread ▸ hlen, hfolds⟩

/-- The number of chunks that the accumulator lacks for some ordinals. -/
def missing (a : Accumulator k) (ordinals : List UInt32) : Nat :=
  a.layout.chunksForOrdinals ordinals - a.size

/-- Accumulating fails and changes nothing, fails with no more than the growth for the ordinals, or
succeeds in folding the whole column. -/
theorem Fits.accumulate_cases (h : a.Fits) {input : Column} (hinput : input.WellFormed)
    (budget : Budget) (ordinals : List UInt32) :
    (∃ e, a.accumulate budget input ordinals = (.error e, a, budget)) ∨
      ∃ r t, a.accumulate budget input ordinals =
          (r, { a with slots := t },
            budget.charge (a.missing ordinals * a.slots.chunkBytes)) ∧
        ((∃ e, r = .error e) ∧ t = a.slots.extend (a.missing ordinals) ∨
          r = .ok () ∧ ordinals.length ≤ (k.entries input).length ∧
            Kernel.Folds a.extremum k (k.entries input) ordinals
              (a.slots.extend (a.missing ordinals)) t) := by
  have hslots := a.slots.slot_chunk_lt_extend ordinals
  rw [accumulate_eq]
  split
  case isTrue => exact Or.inl ⟨_, rfl⟩
  case isFalse hshort =>
      rw [SlotTable.ensureOrdinals_eq]
      rcases h.wellFormed.ensureChunks_cases budget _ with ⟨e, he⟩ | hok
      · rw [he]
        exact Or.inl ⟨e, rfl⟩
      · rw [hok]
        refine Or.inr ?_
        rcases (h.extend (a.missing ordinals)).foldColumn_cases hinput (Nat.not_lt.mp hshort)
          hslots with ⟨t, heq, hlen, hfolds⟩ | heq
        · exact ⟨_, t, congrArg (fun r => (r.1, r.2, _)) heq, Or.inr ⟨rfl, hlen, hfolds⟩⟩
        · exact ⟨_, _, congrArg (fun r => (r.1, r.2, _)) heq, Or.inl ⟨⟨_, rfl⟩, rfl⟩⟩

end Accumulator

end GroupedExtrema
