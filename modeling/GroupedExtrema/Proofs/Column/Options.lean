import GroupedExtrema.Proofs.Column.Bits
import GroupedExtrema.Proofs.Column.Rows

/-!
# Columns made of optional values

Rows that are made of optional values push one bit of validity for each of them, and a value or, in
its place, what the type stores under null rows. A bitmap that bits are pushed to is the one that
`Bitmap.ofList` packs at once (`Bitmap.foldl_push_eq_ofList`), so these rows are no others than those
made of the values and the packed validity. They say which optional values they were made of, and
they are equal only if these are.

The validity of a row is looked up in a bitmap, which has a bit for the row whatever the column was
made by.
-/

namespace GroupedExtrema

/-! ### Bitmaps -/

namespace Bitmap

theorem Stores.foldl_push {α : Type} {b : Bitmap} {bits : List Bool} (h : b.Stores bits)
    (f : α → Bool) (items : List α) :
    (items.foldl (fun v item => v.push (f item)) b).Stores (bits ++ items.map f) := by
  induction items generalizing b bits with
  | nil =>
      rw [List.map_nil, List.append_nil]
      exact h
  | cons item items ih =>
      rw [List.map_cons, List.append_cons]
      exact ih (h.push (f item))

/-- Bits make the same bitmap pushed one by one and packed eight at a time. -/
theorem foldl_push_eq_ofList {α : Type} (f : α → Bool) (items : List α) :
    items.foldl (fun v item => v.push (f item)) empty = ofList (items.map f) :=
  (stores_empty.foldl_push f items).unique (stores_ofList _)

theorem get?_ofList (bits : List Bool) (i : Nat) : (ofList bits).get? i = bits[i]? :=
  (stores_ofList bits).get?_eq i

/-- A bitmap that has been made and changed, no bit past its end having been set, and with a length
that can be rounded up to bytes. What an iterator does after its end does not matter. -/
structure IsMade (b : Bitmap) : Prop where
  exists_recipe : ∃ r : Recipe, r.bitmap? = some b
  roundsUp : RoundsUp b.length

theorem IsMade.wellFormed {b : Bitmap} (h : b.IsMade) : b.WellFormed := by
  obtain ⟨r, hr⟩ := h.exists_recipe
  exact r.wellFormed hr h.roundsUp

end Bitmap

/-- Every row that exists is valid or not, and no other one is. -/
theorem HasBits.isSome_valid {validity : Option Bitmap} {rows : Nat} (h : HasBits validity rows)
    (i : Nat) :
    (if i < rows then (match validity with | some v => v.get? i | none => some true)
      else none).isSome = decide (i < rows) := by
  by_cases hi : i < rows
  · obtain ⟨valid, hvalid⟩ := h.exists_valid hi
    rw [if_pos hi, decide_eq_true hi]
    exact congrArg Option.isSome hvalid
  · rw [if_neg hi, decide_eq_false hi, Option.isSome_none]

/-! ### Reading rows -/

/-- Rows that are read by these functions are those of a list of optional values, with `absent`
stored under null rows. -/
structure ReadAsOptions {α : Type} (absent : α) (items : List (Option α)) (length : Nat)
    (isValid? : Nat → Option Bool) (value? : Nat → Option α) : Prop where
  length_eq : length = items.length
  /-- The rows that have a value are valid, and no others are. -/
  isValid?_eq : ∀ i : Nat, isValid? i = items[i]?.map Option.isSome
  value_of_present : ∀ (i : Nat) v, items[i]? = some (some v) → value? i = some v
  value_of_absent : ∀ i : Nat, items[i]? = some none → value? i = some absent

namespace ReadAsOptions

variable {α : Type} {absent : α} {items : List (Option α)} {length : Nat}
  {isValid? : Nat → Option Bool} {value? : Nat → Option α}

theorem of_getElem? (hlength : length = items.length)
    (hvalid : ∀ i < items.length, isValid? i = (items.map Option.isSome)[i]?)
    (hout : ∀ i : Nat, items.length ≤ i → isValid? i = none)
    (hvalue : ∀ i : Nat, value? i = (items.map (·.getD absent))[i]?) :
    ReadAsOptions absent items length isValid? value? where
  length_eq := hlength
  isValid?_eq := by
    intro i
    by_cases hi : i < items.length
    · rw [hvalid i hi, List.getElem?_map]
    · rw [hout i (Nat.not_lt.mp hi), List.getElem?_eq_none (Nat.not_lt.mp hi), Option.map_none]
  value_of_present := by
    intro i v hi
    rw [hvalue, List.getElem?_map, hi, Option.map_some, Option.getD_some]
  value_of_absent := by
    intro i hi
    rw [hvalue, List.getElem?_map, hi, Option.map_some, Option.getD_none]

/-- The optional values can be read back. -/
theorem map_range_eq (h : ReadAsOptions absent items length isValid? value?) :
    ((List.range length).map fun i => if isValid? i = some true then value? i else none) =
      items := by
  apply List.ext_getElem
  · rw [List.length_map, List.length_range, h.length_eq]
  · intro i hi hi'
    have hitem : items[i]? = some items[i] := List.getElem?_eq_getElem hi'
    rw [List.getElem_map, List.getElem_range, h.isValid?_eq, hitem]
    cases hrow : items[i] with
    | none => rfl
    | some v => exact h.value_of_present i v (hrow ▸ hitem)

end ReadAsOptions

/-! ### Fixed-width rows -/

namespace Rows

variable {α : Type}

/-- The rows are those of a list of optional values. -/
structure Keeps (absent : α) (items : List (Option α)) (r : Rows α) : Prop where
  read : ReadAsOptions absent items r.length r.isValid? (r.values[·]?)
  toOptions_eq : r.toOptions = items
  /-- Values and packed validity make the same rows. -/
  create?_eq : create? (items.map (·.getD absent)).toArray
    (some (.ofList (items.map Option.isSome))) = some r

theorem ofOptions_eq (absent : α) (items : List (Option α)) :
    ofOptions absent items =
      ⟨(items.map (·.getD absent)).toArray, some (.ofList (items.map Option.isSome))⟩ := by
  rw [ofOptions, Bitmap.foldl_push_eq_ofList]

theorem length_ofOptions (absent : α) (items : List (Option α)) :
    (ofOptions absent items).length = items.length := by
  simp [length, ofOptions]

theorem readAsOptions_ofOptions (absent : α) (items : List (Option α)) :
    ReadAsOptions absent items (ofOptions absent items).length (ofOptions absent items).isValid?
      ((ofOptions absent items).values[·]?) := by
  have hlength := length_ofOptions absent items
  refine .of_getElem? hlength ?_ ?_ ?_
  · intro i hi
    rw [isValid?, if_pos (hlength.symm ▸ hi), ofOptions_eq]
    exact Bitmap.get?_ofList _ i
  · intro i hi
    rw [isValid?, if_neg (hlength.symm ▸ Nat.not_lt.mpr hi)]
  · intro i
    rw [ofOptions, List.getElem?_toArray]

theorem keeps_ofOptions (absent : α) (items : List (Option α)) :
    (ofOptions absent items).Keeps absent items where
  read := readAsOptions_ofOptions absent items
  toOptions_eq := (readAsOptions_ofOptions absent items).map_range_eq
  create?_eq := by
    rw [ofOptions_eq, create?, if_pos]
    simp [fitsRows]

theorem ofOptions_beq_iff [BEq α] [LawfulBEq α] (absent : α) (xs ys : List (Option α)) :
    (ofOptions absent xs == ofOptions absent ys) = true ↔ xs = ys := by
  constructor
  · intro hbeq
    -- Rows are compared by their values and then by their validity.
    have hparts := Bool.and_eq_true_iff.mp
      (show ((ofOptions absent xs).values == (ofOptions absent ys).values &&
        (ofOptions absent xs).validity == (ofOptions absent ys).validity) = true from hbeq)
    have heq : ofOptions absent xs = ofOptions absent ys := by
      rw [Rows.mk.injEq]
      exact ⟨eq_of_beq hparts.1, eq_of_beq hparts.2⟩
    rw [← (keeps_ofOptions absent xs).toOptions_eq, heq, (keeps_ofOptions absent ys).toOptions_eq]
  · intro heq
    subst heq
    exact Bool.and_eq_true_iff.mpr ⟨BEq.rfl, BEq.rfl⟩

/-- Rows that one of the ways to make rows has made. -/
inductive IsMade : Rows α → Prop where
  | create? {values : Array α} {validity : Option Bitmap} {r : Rows α} :
      (∀ v ∈ validity, v.IsMade) → Rows.create? values validity = some r → IsMade r
  | ofValues (values : Array α) : IsMade (ofValues values)
  | ofOptions (absent : α) (items : List (Option α)) : IsMade (ofOptions absent items)

theorem IsMade.wellFormed {r : Rows α} (h : r.IsMade) : r.WellFormed := by
  cases h with
  | create? hmade hr => exact wellFormed_of_create? (fun v hv => (hmade v hv).wellFormed) hr
  | ofValues values => exact wellFormed_ofValues values
  | ofOptions absent items => exact wellFormed_ofOptions absent items

theorem IsMade.isSome_isValid? {r : Rows α} (h : r.IsMade) (i : Nat) :
    (r.isValid? i).isSome = decide (i < r.length) :=
  HasBits.isSome_valid h.wellFormed i

end Rows

/-! ### Rows of truth values -/

namespace BooleanRows

@[inherit_doc Rows.Keeps]
structure Keeps (items : List (Option Bool)) (r : BooleanRows) : Prop where
  read : ReadAsOptions false items r.length r.isValid? r.values.get?
  toOptions_eq : r.toOptions = items
  /-- Packed values and packed validity make the same rows. -/
  create?_eq : create? (.ofList (items.map (·.getD false)))
    (some (.ofList (items.map Option.isSome))) = some r

theorem ofOptions_eq (items : List (Option Bool)) :
    ofOptions items =
      ⟨.ofList (items.map (·.getD false)), some (.ofList (items.map Option.isSome))⟩ := by
  rw [ofOptions, Bitmap.foldl_push_eq_ofList, Bitmap.foldl_push_eq_ofList]

theorem length_ofOptions (items : List (Option Bool)) :
    (ofOptions items).length = items.length := by
  rw [ofOptions_eq, length, Bitmap.length_ofList, List.length_map]

theorem readAsOptions_ofOptions (items : List (Option Bool)) :
    ReadAsOptions false items (ofOptions items).length (ofOptions items).isValid?
      (ofOptions items).values.get? := by
  have hlength := length_ofOptions items
  refine .of_getElem? hlength ?_ ?_ ?_
  · intro i hi
    rw [isValid?, if_pos (hlength.symm ▸ hi), ofOptions_eq]
    exact Bitmap.get?_ofList _ i
  · intro i hi
    rw [isValid?, if_neg (hlength.symm ▸ Nat.not_lt.mpr hi)]
  · intro i
    rw [ofOptions_eq]
    exact Bitmap.get?_ofList _ i

theorem keeps_ofOptions (items : List (Option Bool)) : (ofOptions items).Keeps items where
  read := readAsOptions_ofOptions items
  toOptions_eq := (readAsOptions_ofOptions items).map_range_eq
  create?_eq := by
    rw [ofOptions_eq, create?, if_pos]
    simp [fitsRows]

theorem ofOptions_beq_iff (xs ys : List (Option Bool)) :
    (ofOptions xs == ofOptions ys) = true ↔ xs = ys := by
  rw [beq_iff_eq]
  constructor
  · intro heq
    rw [← (keeps_ofOptions xs).toOptions_eq, heq, (keeps_ofOptions ys).toOptions_eq]
  · exact congrArg ofOptions

@[inherit_doc Rows.IsMade]
inductive IsMade : BooleanRows → Prop where
  | create? {values : Bitmap} {validity : Option Bitmap} {r : BooleanRows} :
      values.IsMade → (∀ v ∈ validity, v.IsMade) → BooleanRows.create? values validity = some r →
        IsMade r
  | ofValues {values : Bitmap} : values.IsMade → IsMade (ofValues values)
  | ofOptions (items : List (Option Bool)) : IsMade (ofOptions items)

theorem IsMade.wellFormed {r : BooleanRows} (h : r.IsMade) : r.WellFormed := by
  cases h with
  | create? hvalues hmade hr =>
      exact wellFormed_of_create? hvalues.wellFormed (fun v hv => (hmade v hv).wellFormed) hr
  | ofValues hvalues => exact wellFormed_ofValues hvalues.wellFormed
  | ofOptions items => exact wellFormed_ofOptions items

theorem IsMade.isSome_isValid? {r : BooleanRows} (h : r.IsMade) (i : Nat) :
    (r.isValid? i).isSome = decide (i < r.length) :=
  HasBits.isSome_valid h.wellFormed.2 i

end BooleanRows

/-! ### Columns -/

namespace Column

/-- A column of rows that one of the ways to make rows has made. -/
def IsMade : Column → Prop
  | null _ => True
  | boolean r => r.IsMade
  | int32 r => r.IsMade
  | int64 r => r.IsMade
  | float32 r => r.IsMade
  | float64 r => r.IsMade
  | decimal128 _ r => r.IsMade
  | interval r => r.IsMade

theorem IsMade.isSome_isValid? {c : Column} (h : c.IsMade) (i : Nat) :
    (c.isValid? i).isSome = decide (i < c.length) := by
  cases c with
  | null n =>
      rw [isValid?, length]
      split
      case isTrue hi => rw [decide_eq_true hi, Option.isSome_some]
      case isFalse hi => rw [decide_eq_false hi, Option.isSome_none]
  | boolean r => exact BooleanRows.IsMade.isSome_isValid? h i
  | int32 r | int64 r | float32 r | float64 r | decimal128 t r | interval r =>
      exact Rows.IsMade.isSome_isValid? h i

/-- Rows that are made of optional values, of any fixed-width type or of truth values, keep all of
them, with the default of the type under null rows. Where equality of values is lawful, two such
rows are equal only if they are made of equal optional values. And in any column that has been made,
with whatever bitmaps of lengths that can be rounded up to bytes, the validity of every row can be
looked up. -/
theorem ofOptions_keeps_all :
    (∀ {α : Type} [Inhabited α] (items : List (Option α)),
      (Rows.ofOptions default items).Keeps default items) ∧
    (∀ items : List (Option Bool), (BooleanRows.ofOptions items).Keeps items) ∧
    (∀ {α : Type} [Inhabited α] [BEq α] [LawfulBEq α] (xs ys : List (Option α)),
      (Rows.ofOptions default xs == Rows.ofOptions default ys) = true ↔ xs = ys) ∧
    (∀ xs ys : List (Option Bool),
      (BooleanRows.ofOptions xs == BooleanRows.ofOptions ys) = true ↔ xs = ys) ∧
    ∀ c : Column, c.IsMade → ∀ i, (c.isValid? i).isSome = decide (i < c.length) :=
  ⟨Rows.keeps_ofOptions default, BooleanRows.keeps_ofOptions, Rows.ofOptions_beq_iff default,
    BooleanRows.ofOptions_beq_iff, fun _ h => h.isSome_isValid?⟩

/-- Nine rows, the last one in a byte of its own: whether it is null shows, though the values stored
are the same. In a column whose bitmap has been filled and then changed all three rows are found. -/
theorem ofOptions_keeps_all_of_two_bytes :
    (Rows.ofOptions 0 (List.replicate 8 (some (5 : Int32)) ++ [none])).Keeps 0
      (List.replicate 8 (some 5) ++ [none]) ∧
    (Rows.ofOptions 0 (List.replicate 8 (some (5 : Int32)) ++ [none]) ==
      Rows.ofOptions 0 (List.replicate 8 (some 5) ++ [some 0])) = false ∧
    ∃ b r, ((Bitmap.Recipe.filled true 3).set 1 false).bitmap? = some b ∧
      Rows.create? #[5, 6, 7] (some b) = some r ∧
      ∀ i, ((int64 r).isValid? i).isSome = decide (i < 3) := by
  obtain ⟨hkeeps, -, hbeq, -, hvalid⟩ := ofOptions_keeps_all
  have hmade : ∀ {b}, ((Bitmap.Recipe.filled true 3).set 1 false).bitmap? = some b →
      (int64 ⟨#[5, 6, 7], some b⟩).IsMade := by
    intro b hb
    have hmade : b.IsMade := ⟨⟨_, hb⟩, Option.some.inj hb ▸ (by decide)⟩
    have hcreate : Rows.create? (#[5, 6, 7] : Array Int64) (some b) =
        some ⟨#[5, 6, 7], some b⟩ := by
      rw [← Option.some.inj hb]
      rfl
    exact .create? (fun v hv => Option.some.inj hv ▸ hmade) hcreate
  refine ⟨hkeeps _, ?_, _, ⟨#[5, 6, 7], some _⟩, rfl, rfl, hvalid _ (hmade rfl)⟩
  rw [← Bool.not_eq_true]
  exact mt (hbeq _ _).mp (by decide)

/-- What the types of columns store under null rows. -/
example : ((default : Int32), (default : Int64), (default : Float32Value), (default : Float64Value),
    (default : Unscaled), (default : Interval)) = (0, 0, .zero, .zero, 0, ⟨0, 0⟩) := rfl

end Column

end GroupedExtrema
