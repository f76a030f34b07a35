import GroupedExtrema.Accumulator
import GroupedExtrema.Proofs.Column.Rows

/-!
# Histories

What an accumulator should know at the end of a run can be said without it: for every slot, the
values that were accumulated under its number since the last reset. Only calls that succeeded count,
so the history of a run is the list of its calls together with their results.

Values can be gathered in any form in which rows are seen as optional values. Seeing the rows
through a function first or applying it to what was gathered is the same.
-/

namespace GroupedExtrema

variable {β γ : Type}

/-- The values of the rows that belong to slot `n`. The first row belongs to the first ordinal, and
so on; rows past the ordinals belong to none. -/
def valuesUnder (rows : List (Option β)) (ordinals : List UInt32) (n : Nat) : List β :=
  (ordinals.zip rows).filterMap fun (o, v) => if o.toNat = n then v else none

theorem valuesUnder_cons (v : Option β) (rows : List (Option β)) (o : UInt32)
    (os : List UInt32) (n : Nat) :
    valuesUnder (v :: rows) (o :: os) n =
      (if o.toNat = n then v else none).toList ++ valuesUnder rows os n := by
  rw [valuesUnder, List.zip_cons_cons, List.filterMap_cons]
  cases hv : (if o.toNat = n then v else none) <;> simp [hv, valuesUnder]

/-- Null rows contribute nothing. -/
theorem valuesUnder_replicate_none (m : Nat) (ordinals : List UInt32) (n : Nat) :
    valuesUnder (List.replicate m (none : Option β)) ordinals n = [] := by
  induction ordinals generalizing m with
  | nil => rfl
  | cons o os ih =>
      cases m with
      | zero => rfl
      | succ m =>
          rw [List.replicate_succ, valuesUnder_cons, ih, ite_self]
          rfl

theorem valuesUnder_map (f : β → γ) (rows : List (Option β)) (ordinals : List UInt32) (n : Nat) :
    valuesUnder (rows.map (Option.map f)) ordinals n = (valuesUnder rows ordinals n).map f := by
  induction ordinals generalizing rows with
  | nil => rfl
  | cons o os ih =>
      cases rows with
      | nil => rfl
      | cons v rows =>
          rw [List.map_cons, valuesUnder_cons, valuesUnder_cons, ih, List.map_append]
          by_cases ho : o.toNat = n
          · rw [if_pos ho, if_pos ho, Option.toList_map]
          · rw [if_neg ho, if_neg ho]
            rfl

/-- A slot whose number is none of the ordinals gets no value. -/
theorem valuesUnder_eq_nil {rows : List (Option β)} {ordinals : List UInt32} {n : Nat}
    (h : ∀ o ∈ ordinals, o.toNat ≠ n) : valuesUnder rows ordinals n = [] := by
  rw [valuesUnder, List.filterMap_eq_nil_iff]
  intro ⟨o, v⟩ hmem
  exact if_neg (h o (List.of_mem_zip hmem).1)

/-! ### Calls with their results -/

/-- A call of a history with its result. -/
abbrev Record := Call × Except Error Unit

instance instDecidableEqOk : (r : Except Error Unit) → Decidable (r = .ok ())
  | .ok () => isTrue rfl
  | .error _ => isFalse (by simp)

/-- What a call leaves of the values gathered for slot `n` before it. -/
def gather (view : Column → List (Option β)) (n : Nat) (vs : List β) : Record → List β
  | (.accumulate input ordinals, .ok ()) => vs ++ valuesUnder (view input) ordinals n
  | (.accumulate _ _, .error _) => vs
  | (.resize _, _) => vs
  | (.reset, _) => []

/-- The values accumulated for slot `n` since the last reset of a history. -/
def gathered (view : Column → List (Option β)) (history : List Record) (n : Nat) : List β :=
  history.foldl (gather view n) []

/-- The column of a call, if it has one, is as asked. -/
def Call.Feeds (p : Column → Prop) : Call → Prop
  | accumulate input _ => p input
  | resize _ => True
  | reset => True

instance Call.decidableFeeds (p : Column → Prop) [DecidablePred p] : DecidablePred (Call.Feeds p)
  | .accumulate input _ => inferInstanceAs (Decidable (p input))
  | .resize _ => inferInstanceAs (Decidable True)
  | .reset => inferInstanceAs (Decidable True)

theorem Call.Feeds.imp {p q : Column → Prop} (h : ∀ c, p c → q c) {c : Call} (hc : c.Feeds p) :
    c.Feeds q := by
  cases c with
  | accumulate input ordinals => exact h input hc
  | resize chunks => trivial
  | reset => trivial

theorem Call.feeds_of_forall {p : Column → Prop} (h : ∀ c, p c) (c : Call) : c.Feeds p := by
  cases c with
  | accumulate input ordinals => exact h input
  | resize chunks => trivial
  | reset => trivial

theorem gather_map {view : Column → List (Option β)} {view' : Column → List (Option γ)}
    {f : β → γ} {r : Record} (h : r.1.Feeds fun c => view' c = (view c).map (Option.map f))
    (n : Nat) (vs : List β) : gather view' n (vs.map f) r = (gather view n vs r).map f := by
  rcases r with ⟨c, result⟩
  cases c with
  | accumulate input ordinals =>
      have hview : view' input = (view input).map (Option.map f) := h
      cases result with
      | ok u => rw [gather, gather, hview, valuesUnder_map, List.map_append]
      | error e => rfl
  | resize chunks => rfl
  | reset => rfl

/-- Gathering the images of values gathers the values and takes their images. Only the columns of
the history have to be seen so. -/
theorem gathered_map_of_feeds {view : Column → List (Option β)} {view' : Column → List (Option γ)}
    {f : β → γ} {history : List Record}
    (h : ∀ r ∈ history, r.1.Feeds fun c => view' c = (view c).map (Option.map f)) (n : Nat) :
    gathered view' history n = (gathered view history n).map f := by
  -- Generalised from nothing to whatever has been gathered already.
  have hfold : ∀ vs : List β, history.foldl (gather view' n) (vs.map f) =
      (history.foldl (gather view n) vs).map f := by
    induction history with
    | nil => intro vs; rfl
    | cons r rs ih =>
        intro vs
        obtain ⟨hr, hrs⟩ := List.forall_mem_cons.mp h
        rw [List.foldl_cons, List.foldl_cons, gather_map hr, ih hrs]
  exact hfold []

theorem gathered_map {view : Column → List (Option β)} {view' : Column → List (Option γ)}
    {f : β → γ} (h : ∀ c, view' c = (view c).map (Option.map f)) (history : List Record) (n : Nat) :
    gathered view' history n = (gathered view history n).map f :=
  gathered_map_of_feeds (fun r _ => Call.feeds_of_forall h r.1) n

/-- The column of a call, if it has one, is well-formed. -/
def Call.WellFormed : Call → Prop
  | accumulate input _ => input.WellFormed
  | resize _ => True
  | reset => True

instance : DecidablePred Call.WellFormed
  | .accumulate input _ => inferInstanceAs (Decidable input.WellFormed)
  | .resize _ => inferInstanceAs (Decidable True)
  | .reset => inferInstanceAs (Decidable True)

/-- The calls of a run with their results. -/
def Accumulator.history {k : Kernel} (a : Accumulator k) (budget : Budget) :
    List Call → List Record
  | [] => []
  | c :: cs =>
    match a.step budget c with
    | (result, a, budget) => (c, result) :: history a budget cs

theorem Accumulator.mem_of_mem_history {k : Kernel} {a : Accumulator k} {budget : Budget}
    {calls : List Call} {r : Record} (h : r ∈ a.history budget calls) : r.1 ∈ calls := by
  induction calls generalizing a budget with
  | nil => exact absurd h List.not_mem_nil
  | cons c cs ih =>
      rcases List.mem_cons.mp h with rfl | hrest
      · exact List.mem_cons_self
      · exact List.mem_cons_of_mem c (ih hrest)

end GroupedExtrema
