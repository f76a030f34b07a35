import GroupedExtrema.Kernel
import GroupedExtrema.Proofs.Column.Bitmap

/-!
# Rows as optional values

All that a column says is a list of optional values, `none` for a null row. What is stored under
null rows, bits past the end of a bitmap and the difference between a missing bitmap and one that is
all ones do not show in it.

The rows of a well-formed column can all be read, and what a kernel reads of a row is its entry of
this list in the form the kernel folds.
-/

namespace GroupedExtrema

/-! ### Bitmaps of optional values -/

/-- Pushing bit after bit keeps a bitmap well-formed. -/
theorem Bitmap.WellFormed.foldl_push {α : Type} {b : Bitmap} (h : b.WellFormed) (f : α → Bool)
    (items : List α) :
    (items.foldl (fun v item => v.push (f item)) b).WellFormed ∧
      (items.foldl (fun v item => v.push (f item)) b).length = b.length + items.length := by
  induction items generalizing b with
  | nil => exact ⟨h, rfl⟩
  | cons item items ih =>
      obtain ⟨hwf, hlen⟩ := ih (h.push (f item))
      refine ⟨hwf, ?_⟩
      rw [List.foldl_cons, hlen, List.length_cons]
      show b.length + 1 + items.length = b.length + (items.length + 1)
      omega

/-- A bitmap, if there is one, has a bit for each of so many rows. -/
def HasBits (validity : Option Bitmap) (rows : Nat) : Prop :=
  ∀ v ∈ validity, v.length = rows ∧ v.WellFormed

instance (validity : Option Bitmap) (rows : Nat) : Decidable (HasBits validity rows) :=
  inferInstanceAs (Decidable (∀ v ∈ validity, v.length = rows ∧ v.WellFormed))

theorem hasBits_of_fitsRows {validity : Option Bitmap} {rows : Nat}
    (h : ∀ v ∈ validity, v.WellFormed) (hfits : fitsRows validity rows = true) :
    HasBits validity rows := by
  intro v hv
  refine ⟨?_, h v hv⟩
  rw [Option.mem_def] at hv
  subst hv
  exact eq_of_beq hfits

/-- Every row is null or not, as its bit says. -/
theorem HasBits.exists_valid {validity : Option Bitmap} {rows : Nat} (h : HasBits validity rows)
    {i : Nat} (hi : i < rows) :
    ∃ valid, (match validity with | some v => v.get? i | none => some true) = some valid := by
  cases validity with
  | none => exact ⟨true, rfl⟩
  | some v =>
      obtain ⟨hlen, hwf⟩ := h v rfl
      exact hwf.exists_get? (hlen.symm ▸ hi)

/-! ### Fixed-width rows -/

namespace Rows

variable {α β : Type}

/-- The rows as optional values. -/
def toOptions (r : Rows α) : List (Option α) :=
  (List.range r.length).map fun i => if r.isValid? i = some true then r.values[i]? else none

/-- The validity of the rows is complete. -/
def WellFormed (r : Rows α) : Prop := HasBits r.validity r.length

instance (r : Rows α) : Decidable r.WellFormed :=
  inferInstanceAs (Decidable (HasBits r.validity r.length))

theorem wellFormed_of_create? {values : Array α} {validity : Option Bitmap} {r : Rows α}
    (h : ∀ v ∈ validity, v.WellFormed) (hr : create? values validity = some r) : r.WellFormed := by
  unfold create? at hr
  split at hr
  case isTrue hfits =>
      rw [← Option.some.inj hr]
      exact hasBits_of_fitsRows h hfits
  case isFalse => exact absurd hr (by simp)

theorem wellFormed_ofValues (values : Array α) : (ofValues values).WellFormed :=
  fun v hv => absurd hv (by simp [ofValues])

theorem wellFormed_ofOptions (absent : α) (items : List (Option α)) :
    (ofOptions absent items).WellFormed := by
  intro v hv
  obtain ⟨hwf, hlen⟩ := Bitmap.wellFormed_empty.foldl_push Option.isSome items
  rw [← Option.some.inj hv, hlen]
  exact ⟨by simp [ofOptions, length, Bitmap.empty], hwf⟩

@[simp] theorem length_toOptions (r : Rows α) : r.toOptions.length = r.length := by
  simp [toOptions]

theorem getElem?_toOptions (r : Rows α) {i : Nat} (hi : i < r.length) :
    r.toOptions[i]? = some (if r.isValid? i = some true then r.values[i]? else none) := by
  rw [toOptions, List.getElem?_map, List.getElem?_range hi, Option.map_some]

/-- Every row can be read, and reads as its optional value. -/
theorem WellFormed.read? {r : Rows α} (h : r.WellFormed) {i : Nat} (hi : i < r.length) :
    ∃ v valid, r.read? i = some (v, valid) ∧
      r.toOptions[i]? = some (if valid then some v else none) := by
  have hvalue : r.values[i]? = some r.values[i] := Array.getElem?_eq_getElem hi
  rw [getElem?_toOptions r hi, isValid?, if_pos hi, Rows.read?, hvalue]
  cases hvalidity : r.validity with
  | none => exact ⟨r.values[i], true, rfl, rfl⟩
  | some b =>
      obtain ⟨hlen, hwf⟩ := h b hvalidity
      have hbit : i < b.length := hlen.symm ▸ hi
      obtain ⟨valid, hget⟩ := hwf.exists_get? hbit
      refine ⟨r.values[i], valid, ?_, ?_⟩
      · simp [Bitmap.rawBit?_eq_get? hbit, hget]
      · simp [hget]

end Rows

/-! ### Rows of truth values -/

namespace BooleanRows

/-- The rows as optional values. -/
def toOptions (r : BooleanRows) : List (Option Bool) :=
  (List.range r.length).map fun i => if r.isValid? i = some true then r.values.get? i else none

/-- Values and validity of the rows are complete. -/
def WellFormed (r : BooleanRows) : Prop := r.values.WellFormed ∧ HasBits r.validity r.length

instance (r : BooleanRows) : Decidable r.WellFormed :=
  inferInstanceAs (Decidable (r.values.WellFormed ∧ HasBits r.validity r.length))

theorem wellFormed_of_create? {values : Bitmap} {validity : Option Bitmap} {r : BooleanRows}
    (hvalues : values.WellFormed) (h : ∀ v ∈ validity, v.WellFormed)
    (hr : create? values validity = some r) : r.WellFormed := by
  unfold create? at hr
  split at hr
  case isTrue hfits =>
      rw [← Option.some.inj hr]
      exact ⟨hvalues, hasBits_of_fitsRows h hfits⟩
  case isFalse => exact absurd hr (by simp)

theorem wellFormed_ofValues {values : Bitmap} (h : values.WellFormed) :
    (ofValues values).WellFormed :=
  ⟨h, fun v hv => absurd hv (by simp [ofValues])⟩

theorem wellFormed_ofOptions (items : List (Option Bool)) : (ofOptions items).WellFormed := by
  obtain ⟨hvalues, hrows⟩ := Bitmap.wellFormed_empty.foldl_push (·.getD false) items
  refine ⟨hvalues, ?_⟩
  intro v hv
  obtain ⟨hwf, hlen⟩ := Bitmap.wellFormed_empty.foldl_push Option.isSome items
  rw [← Option.some.inj hv, hlen]
  exact ⟨hrows.symm, hwf⟩

@[simp] theorem length_toOptions (r : BooleanRows) : r.toOptions.length = r.length := by
  simp [toOptions]

theorem getElem?_toOptions (r : BooleanRows) {i : Nat} (hi : i < r.length) :
    r.toOptions[i]? = some (if r.isValid? i = some true then r.values.get? i else none) := by
  rw [toOptions, List.getElem?_map, List.getElem?_range hi, Option.map_some]

/-- Every row reads as its optional value. -/
theorem WellFormed.read {r : BooleanRows} (h : r.WellFormed) {i : Nat} (hi : i < r.length) :
    r.toOptions[i]? = some (if (r.read i).2 then some (r.read i).1 else none) := by
  obtain ⟨value, hvalue⟩ := h.1.exists_get? hi
  rw [getElem?_toOptions r hi, isValid?, if_pos hi, BooleanRows.read, hvalue,
    Bitmap.wordBit_of_get? hvalue]
  cases hvalidity : r.validity with
  | none => rfl
  | some b =>
      obtain ⟨hlen, hwf⟩ := h.2 b hvalidity
      obtain ⟨valid, hget⟩ := hwf.exists_get? (hlen.symm ▸ hi : i < b.length)
      simp [hget, Bitmap.wordBit_of_get? hget]

end BooleanRows

/-! ### Columns -/

/-- Every bitmap of the column is complete. -/
def Column.WellFormed : Column → Prop
  | null _ => True
  | boolean r => r.WellFormed
  | int32 r => r.WellFormed
  | int64 r => r.WellFormed
  | float32 r => r.WellFormed
  | float64 r => r.WellFormed
  | decimal128 _ r => r.WellFormed
  | interval r => r.WellFormed

instance : DecidablePred Column.WellFormed
  | .null _ => inferInstanceAs (Decidable True)
  | .boolean r => inferInstanceAs (Decidable r.WellFormed)
  | .int32 r => inferInstanceAs (Decidable r.WellFormed)
  | .int64 r => inferInstanceAs (Decidable r.WellFormed)
  | .float32 r => inferInstanceAs (Decidable r.WellFormed)
  | .float64 r => inferInstanceAs (Decidable r.WellFormed)
  | .decimal128 _ r => inferInstanceAs (Decidable r.WellFormed)
  | .interval r => inferInstanceAs (Decidable r.WellFormed)

namespace Kernel

/-- The rows of a column as optional values in the form the kernel folds. Columns of other types
have none. -/
def entries : (k : Kernel) → Column → List (Option k.Value)
  | _, .null n => List.replicate n none
  | int32, .int32 r => r.toOptions
  | int64, .int64 r => r.toOptions
  | float32, .float32 r => r.toOptions
  | float64, .float64 r => r.toOptions
  | decimal128, .decimal128 t r =>
    r.toOptions.map (Option.map (Decimal.toDouble (Decimal.divisor t.scale)))
  | boolean, .boolean r => r.toOptions
  | intervalDayTime, .interval r => r.toOptions.map (Option.map Interval.toStorage)
  | _, _ => []

/-- No kernel reads a null column. -/
theorem reader?_null (k : Kernel) (n : Nat) : k.reader? (.null n) = none := by
  cases k <;> rfl

theorem entries_null (k : Kernel) (n : Nat) : k.entries (.null n) = List.replicate n none := by
  cases k <;> rfl

/-- A column that a kernel can read has an entry for every row. -/
theorem length_entries {k : Kernel} {c : Column} {read : Nat → Option (k.Value × Bool)}
    (h : k.reader? c = some read) : (k.entries c).length = c.length := by
  unfold reader? at h
  split at h
  case h_1 r => exact r.length_toOptions
  case h_2 r => exact r.length_toOptions
  case h_3 r => exact r.length_toOptions
  case h_4 r => exact r.length_toOptions
  case h_5 t r => exact (List.length_map _).trans r.length_toOptions
  case h_6 r => exact r.length_toOptions
  case h_7 r => exact (List.length_map _).trans r.length_toOptions
  case h_8 => exact absurd h (by simp)

/-- A kernel can read every row of a column of its type, and reads its entry. -/
theorem read_of_reader? {k : Kernel} {c : Column} (hc : c.WellFormed)
    {read : Nat → Option (k.Value × Bool)} (h : k.reader? c = some read) {i : Nat}
    (hi : i < c.length) :
    ∃ v valid, read i = some (v, valid) ∧
      (k.entries c)[i]? = some (if valid then some v else none) := by
  unfold reader? at h
  split at h
  case h_1 r => exact Option.some.inj h ▸ Rows.WellFormed.read? hc hi
  case h_2 r => exact Option.some.inj h ▸ Rows.WellFormed.read? hc hi
  case h_3 r => exact Option.some.inj h ▸ Rows.WellFormed.read? hc hi
  case h_4 r => exact Option.some.inj h ▸ Rows.WellFormed.read? hc hi
  case h_5 t r =>
      obtain ⟨v, valid, hread, hentry⟩ := Rows.WellFormed.read? hc hi
      refine ⟨Decimal.toDouble (Decimal.divisor t.scale) v, valid, ?_, ?_⟩
      · rw [← Option.some.inj h]
        simp [hread]
      · rw [entries, List.getElem?_map, hentry]
        cases valid <;> rfl
  case h_6 r => exact ⟨_, _, by rw [← Option.some.inj h], BooleanRows.WellFormed.read hc hi⟩
  case h_7 r =>
      obtain ⟨v, valid, hread, hentry⟩ := Rows.WellFormed.read? hc hi
      refine ⟨v.toStorage, valid, ?_, ?_⟩
      · rw [← Option.some.inj h]
        simp [hread]
      · rw [entries, List.getElem?_map, hentry]
        cases valid <;> rfl
  case h_8 => exact absurd h (by simp)

end Kernel

end GroupedExtrema
