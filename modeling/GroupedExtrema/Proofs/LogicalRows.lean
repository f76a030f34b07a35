import GroupedExtrema.Proofs.Outcome
import GroupedExtrema.Proofs.Run

/-!
# What of a column counts

A column stores more than it says: values under null rows, a bitmap of ones that might as well be
missing, a type for rows of which none has a value. What it says of a row is an item, or nothing
(`Column.item?`).

Folding a column comes to folding its items one after the other, and a row without an item leaves
the table as it is. So two columns that say the same of the rows that ordinals are given for cannot
be told apart by what accumulating them does.
-/

namespace GroupedExtrema

/-! ### Items -/

/-- The value of a row that is not null. A decimal is its unscaled value with its scale. -/
inductive Item where
  | boolean (value : Bool)
  | int32 (value : Int32)
  | int64 (value : Int64)
  | float32 (value : Float32Value)
  | float64 (value : Float64Value)
  | decimal128 (value : Unscaled) (scale : Int8)
  | interval (value : Interval)
deriving DecidableEq

/-- The value of a row; none if the row is null. -/
def Rows.item? {α : Type} (r : Rows α) (i : Nat) : Option α :=
  if r.isValid? i = some true then r.values[i]? else none

@[inherit_doc Rows.item?]
def BooleanRows.item? (r : BooleanRows) (i : Nat) : Option Bool :=
  if r.isValid? i = some true then r.values.get? i else none

namespace Column

/-- What a column says of a row; none if the row is null. -/
def item? : Column → Nat → Option Item
  | null _, _ => none
  | boolean r, i => (r.item? i).map .boolean
  | int32 r, i => (r.item? i).map .int32
  | int64 r, i => (r.item? i).map .int64
  | float32 r, i => (r.item? i).map .float32
  | float64 r, i => (r.item? i).map .float64
  | decimal128 t r, i => (r.item? i).map (.decimal128 · t.scale)
  | interval r, i => (r.item? i).map .interval

end Column

namespace Kernel

/-- An item in the form the kernel folds, if it is one of the kernel's type. -/
def valueOf? : (k : Kernel) → Item → Option k.Value
  | int32, .int32 v => some v
  | int64, .int64 v => some v
  | float32, .float32 v => some v
  | float64, .float64 v => some v
  | decimal128, .decimal128 v scale => some (Decimal.toDouble (Decimal.divisor scale) v)
  | boolean, .boolean v => some v
  | intervalDayTime, .interval v => some v.toStorage
  | _, _ => none

/-- The column is of the kernel's type, or it has no type at all. -/
def Takes (k : Kernel) (c : Column) : Prop := k.accepts c.datatype = true ∨ c.datatype = .null

instance (k : Kernel) (c : Column) : Decidable (k.Takes c) :=
  inferInstanceAs (Decidable (k.accepts c.datatype = true ∨ c.datatype = .null))

variable {e : Extremum} {k : Kernel} {t : SlotTable k.Cell}

/-- Of all columns with a type, a kernel takes those of its own. -/
theorem Takes.ofDataType?_eq {c : Column} (h : k.Takes c) (hne : c.datatype ≠ .null) :
    ofDataType? c.datatype = some k := by
  rcases h with haccepts | hnull
  · exact eq_of_beq haccepts
  · exact absurd hnull hne

/-- A column that a kernel takes is null, or the kernel reads it. -/
theorem Takes.cases {c : Column} (h : k.Takes c) :
    (∃ n, c = .null n) ∨ ∃ read, k.reader? c = some read := by
  cases c with
  | null n => exact Or.inl ⟨n, rfl⟩
  | _ =>
      obtain rfl := Option.some.inj (h.ofDataType?_eq (by simp [Column.datatype]))
      exact Or.inr ⟨_, rfl⟩

/-- The entry of a row is its item in the form the kernel folds. -/
theorem getElem?_entries {c : Column} (h : k.Takes c) {i : Nat} (hi : i < c.length) :
    (k.entries c)[i]? = some ((c.item? i).bind k.valueOf?) := by
  cases c with
  | null n =>
      have hi : i < n := hi
      rw [entries_null, List.getElem?_replicate, if_pos hi]
      rfl
  | boolean r | int32 r | int64 r | float32 r | float64 r =>
      obtain rfl := Option.some.inj (h.ofDataType?_eq (by simp [Column.datatype]))
      refine (r.getElem?_toOptions hi).trans ?_
      show some (r.item? i) = some (((r.item? i).map _).bind _)
      cases r.item? i <;> rfl
  | decimal128 t r | interval r =>
      obtain rfl := Option.some.inj (h.ofDataType?_eq (by simp [Column.datatype]))
      rw [entries, List.getElem?_map, r.getElem?_toOptions hi]
      show some ((r.item? i).map _) = some (((r.item? i).map _).bind _)
      cases r.item? i <;> rfl

/-! ### Folding items -/

/-- Folds an entry into the slot of an ordinal. -/
def foldEntry (e : Extremum) (k : Kernel) (t : SlotTable k.Cell) :
    UInt32 × Option k.Value → SlotTable k.Cell
  | (_, none) => t
  | (o, some v) => (k.foldRow e t o (v, true)).getD t

/-- Entries of null rows leave the table as it is. -/
theorem foldl_foldEntry_none {rows : List (UInt32 × Option k.Value)}
    (h : ∀ row ∈ rows, row.2 = none) : rows.foldl (k.foldEntry e) t = t := by
  induction rows with
  | nil => rfl
  | cons row rows ih =>
      obtain ⟨hrow, hrows⟩ := List.forall_mem_cons.mp h
      obtain ⟨o, entry⟩ := row
      obtain rfl : entry = none := hrow
      exact ih hrows

/-- Folding rows that can be read into slots that exist is folding their entries. -/
theorem Fits.foldRows_eq (h : Fits e k t) {read : Nat → Option (k.Value × Bool)}
    (entries : List (Option k.Value)) (i : Nat) {ordinals : List UInt32}
    (hslots : ∀ o ∈ ordinals, (t.layout.slot o.toNat).chunk < t.size)
    (hread : ∀ j, i ≤ j → j < i + ordinals.length → ∃ v valid, read j = some (v, valid) ∧
      entries[j]? = some (if valid then some v else none)) :
    k.foldRows e read i ordinals t =
      some ((ordinals.zip (entries.drop i)).foldl (k.foldEntry e) t) := by
  induction ordinals generalizing i t with
  | nil => rfl
  | cons o os ih =>
      obtain ⟨v, valid, hrow, hentry⟩ := hread i (Nat.le_refl i) (by simp)
      obtain ⟨t', ht'⟩ := h.exists_foldRow (hslots o List.mem_cons_self) (v, valid)
      -- A null row is folded in too, but that changes nothing.
      have hfold : k.foldEntry e t (o, if valid then some v else none) = t' := by
        cases valid with
        | false => exact (eq_of_foldRow_null ht').symm
        | true =>
            show (k.foldRow e t o (v, true)).getD t = t'
            rw [ht', Option.getD_some]
      have hrest := ih (t := t') (h.foldRow ht') (i + 1)
        (fun o' ho' => by
          rw [layout_foldRow ht', size_foldRow ht']
          exact hslots o' (List.mem_cons_of_mem o ho'))
        (fun j hij hj => hread j (by omega) (by rw [List.length_cons]; omega))
      obtain ⟨hi, hget⟩ := List.getElem?_eq_some_iff.mp hentry
      simp only [Kernel.foldRows, hrow, ht', hrest]
      rw [List.drop_eq_getElem_cons hi, hget, List.zip_cons_cons, List.foldl_cons, hfold]

end Kernel

/-- Rows that agree where there are ordinals go with them in the same way. -/
theorem zip_congr_right {α β : Type} {os : List α} {xs ys : List β}
    (h : ∀ i < os.length, xs[i]? = ys[i]?) : os.zip xs = os.zip ys := by
  apply List.ext_getElem?
  intro i
  by_cases hi : i < os.length
  · simp only [List.zip, List.getElem?_zipWith, h i hi]
  · rw [List.getElem?_eq_none, List.getElem?_eq_none]
    all_goals
      rw [List.length_zip]
      omega

namespace Accumulator

variable {k : Kernel} {a : Accumulator k}

/-- Folding a column that the kernel takes is folding the entries of its rows. -/
theorem Fits.foldColumn_eq (h : a.Fits) {input : Column} (hinput : input.WellFormed)
    (htakes : k.Takes input) {ordinals : List UInt32} (hlen : ordinals.length ≤ input.length)
    (hslots : ∀ o ∈ ordinals, (a.slots.layout.slot o.toNat).chunk < a.slots.size) :
    a.foldColumn input ordinals = (.ok (), { a with
      slots := (ordinals.zip (k.entries input)).foldl (k.foldEntry a.extremum) a.slots }) := by
  rcases htakes.cases with ⟨n, rfl⟩ | ⟨read, hread⟩
  · rw [Kernel.foldl_foldEntry_none]
    · rfl
    · intro row hrow
      have hmem := (List.of_mem_zip hrow).2
      rw [Kernel.entries_null] at hmem
      exact List.eq_of_mem_replicate hmem
  · have hfold := Kernel.Fits.foldRows_eq h (k.entries input) 0 hslots fun j _ hj =>
      Kernel.read_of_reader? hinput hread (by omega)
    rw [List.drop_zero] at hfold
    rw [foldColumn_of_reader? hread, hfold]

/-- Columns that say the same of the rows that there are ordinals for are folded alike. -/
theorem Fits.accumulate_congr (h : a.Fits) {input input' : Column} (hinput : input.WellFormed)
    (hinput' : input'.WellFormed) (htakes : k.Takes input) (htakes' : k.Takes input')
    {ordinals : List UInt32} (hlen : ordinals.length ≤ input.length)
    (hlen' : ordinals.length ≤ input'.length)
    (hitems : ∀ i < ordinals.length, input.item? i = input'.item? i) (budget : Budget) :
    a.accumulate budget input ordinals = a.accumulate budget input' ordinals := by
  have hrows : ordinals.zip (k.entries input) = ordinals.zip (k.entries input') := by
    apply zip_congr_right
    intro i hi
    rw [Kernel.getElem?_entries htakes (by omega), Kernel.getElem?_entries htakes' (by omega),
      hitems i hi]
  -- Both calls ask for the same growth; what they do after it is to fold the same entries.
  have hperform : (a.extend (a.missing ordinals)).perform (.accumulate input ordinals) =
      (a.extend (a.missing ordinals)).perform (.accumulate input' ordinals) := by
    have hfits : (a.extend (a.missing ordinals)).Fits := h.extend _
    have hslots := a.slots.slot_chunk_lt_extend ordinals
    show foldColumn _ input ordinals = foldColumn _ input' ordinals
    rw [hfits.foldColumn_eq hinput htakes hlen hslots,
      hfits.foldColumn_eq hinput' htakes' hlen' hslots, hrows]
  show a.step budget (.accumulate input ordinals) = a.step budget (.accumulate input' ordinals)
  rw [step_eq h.wellFormed budget (.accumulate input ordinals),
    step_eq h.wellFormed budget (.accumulate input' ordinals)]
  simp only [missing] at hperform
  simp only [Call.refusal?, if_neg (Nat.not_lt.mpr hlen), if_neg (Nat.not_lt.mpr hlen'),
    Call.chunks, hperform]

/-- Whatever state an accumulator is in, two columns that say the same of the rows that there are
ordinals for have the same result, and they leave the same accumulator and the same budget. -/
theorem Reachable.accumulate_eq_of_items {e : Extremum} {l : ChunkLayout} {V : Nat → List k.Value}
    (h : Reachable e l a V) {input input' : Column} (hinput : input.WellFormed)
    (hinput' : input'.WellFormed) (htakes : k.Takes input) (htakes' : k.Takes input')
    {ordinals : List UInt32} (hlen : ordinals.length ≤ input.length)
    (hlen' : ordinals.length ≤ input'.length)
    (hitems : ∀ i < ordinals.length, input.item? i = input'.item? i) (budget : Budget) :
    a.accumulate budget input ordinals = a.accumulate budget input' ordinals :=
  h.holds.toFits.accumulate_congr hinput hinput' htakes htakes' hlen hlen' hitems budget

/-- Different values under a null row and different rows after the last ordinal; a bitmap of ones
and none; a null column and integers of which none is there. -/
theorem Reachable.accumulate_eq_of_same_rows :
    ∃ a, Accumulator.create .int32 .min .int32 ⟨5, by decide, by decide⟩ = .ok a ∧
      a.accumulate (.ofLimit none) (.int32 ⟨#[5, 99, 7], some ⟨3, #[5]⟩⟩) [3, 40] =
        a.accumulate (.ofLimit none) (.int32 ⟨#[5, -1, 8, 8], some ⟨4, #[13]⟩⟩) [3, 40] ∧
      a.accumulate (.ofLimit none) (.int32 ⟨#[5, 99], some ⟨2, #[3]⟩⟩) [3, 40] =
        a.accumulate (.ofLimit none) (.int32 ⟨#[5, 99], none⟩) [3, 40] ∧
      a.accumulate (.ofLimit none) (.null 2) [3, 40] =
        a.accumulate (.ofLimit none) (.int32 ⟨#[5, 99], some ⟨2, #[0]⟩⟩) [3, 40] := by
  obtain ⟨a, ha⟩ : ∃ a, Accumulator.create .int32 .min .int32 ⟨5, by decide, by decide⟩ = .ok a :=
    ⟨_, rfl⟩
  have hreach := Reachable.create ha
  refine ⟨a, ha, ?_, ?_, ?_⟩
  · exact hreach.accumulate_eq_of_items (by decide) (by decide) (by decide) (by decide) (by decide)
      (by decide) (by decide) _
  · exact hreach.accumulate_eq_of_items (by decide) (by decide) (by decide) (by decide) (by decide)
      (by decide) (by decide) _
  · exact hreach.accumulate_eq_of_items (by decide) (by decide) (by decide) (by decide) (by decide)
      (by decide) (by decide) _

end Accumulator

end GroupedExtrema
