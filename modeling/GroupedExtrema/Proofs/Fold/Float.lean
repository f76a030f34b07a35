import GroupedExtrema.Fold.Float
import GroupedExtrema.Proofs.Extremum
import GroupedExtrema.Proofs.Ieee.Order

/-!
# Floating-point folds

A slot is NaN once a NaN has been folded into it, and stays so: NaN is absorbing on both sides. On
numbers the fold selects one of its two arguments, so a list of numbers ends at one of them or at
the identity.

The identity is finite and the infinity of its sign lies beyond it, so unlike for integers not every
value is ahead of the identity. A list decides the fold as soon as one of its elements is not that
infinity: if the fold still ends at the identity, then that element equals the identity, and no
element is ahead of it.
-/

namespace GroupedExtrema.Fold

variable {f : Format}

/-- The value of a slot after a row that is not null. -/
def floatPick (e : Extremum) (current incoming : Ieee f) : Ieee f :=
  float e current incoming true

/-- A row is picked if it is not null, and changes nothing if it is. -/
theorem float_eq (e : Extremum) (current incoming : Ieee f) (valid : Bool) :
    float e current incoming valid =
      if valid then floatPick e current incoming else current := by
  cases valid <;> rfl

/-! ### NaN -/

theorem floatPick_of_isNaN {e : Extremum} {x y : Ieee f} (h : (x.isNaN || y.isNaN) = true) :
    floatPick e x y = .nan := by
  simp [floatPick, float, h]

theorem floatPick_of_numbers {e : Extremum} {x y : Ieee f} (hx : x.isNaN = false)
    (hy : y.isNaN = false) : floatPick e x y = if keeps e x y then x else y := by
  simp [floatPick, float, hx, hy]

/-- A NaN on either side makes the slot NaN, and nothing else does. -/
theorem isNaN_floatPick [f.Proper] (e : Extremum) (x y : Ieee f) :
    (floatPick e x y).isNaN = (x.isNaN || y.isNaN) := by
  cases h : x.isNaN || y.isNaN with
  | true => rw [floatPick_of_isNaN h, Ieee.isNaN_nan]
  | false =>
      obtain ⟨hx, hy⟩ := Bool.or_eq_false_iff.mp h
      rw [floatPick_of_numbers hx hy]
      split <;> assumption

/-- A whole list is NaN if one of its elements is. -/
theorem isNaN_foldl_floatPick [f.Proper] (e : Extremum) (vs : List (Ieee f)) (s : Ieee f) :
    (vs.foldl (floatPick e) s).isNaN = (s.isNaN || vs.any Ieee.isNaN) := by
  induction vs generalizing s with
  | nil => simp
  | cons v vs ih => rw [List.foldl_cons, ih, isNaN_floatPick, List.any_cons, Bool.or_assoc]

/-! ### Numbers -/

/-- A slot that keeps its value is ahead of the incoming one, and otherwise it is not. -/
theorem keeps_iff {e : Extremum} {x y : Ieee f} (hx : x.isNaN = false) (hy : y.isNaN = false) :
    keeps e x y = true ↔ ¬ e.Ahead Ieee.Le y x := by
  cases e with
  | min => exact (Ieee.lt_iff hx hy).trans Int.not_le.symm
  | max => exact (Ieee.lt_iff hy hx).trans Int.not_le.symm

theorem ahead_total (e : Extremum) (x y : Ieee f) : e.Ahead Ieee.Le x y ∨ e.Ahead Ieee.Le y x := by
  cases e with
  | min => exact Int.le_total x.key y.key
  | max => exact Int.le_total y.key x.key

/-- On numbers, the fold selects. -/
theorem selects_floatPick (e : Extremum) :
    Selects (fun x : Ieee f => x.isNaN = false) (e.Ahead Ieee.Le) (floatPick e) where
  refl := Extremum.Ahead.refl Ieee.Le.refl
  trans := fun _ _ _ hxy hyz => hxy.trans hyz fun _ _ _ => Ieee.Le.trans
  choice := by
    intro x y hx hy
    rw [floatPick_of_numbers hx hy]
    split
    · exact Or.inl rfl
    · exact Or.inr rfl
  ahead_left := by
    intro x y hx hy
    rw [floatPick_of_numbers hx hy]
    split
    case isTrue => exact Extremum.Ahead.refl Ieee.Le.refl x
    case isFalse h => exact Classical.not_not.mp fun hnot => h ((keeps_iff hx hy).mpr hnot)
  ahead_right := by
    intro x y hx hy
    rw [floatPick_of_numbers hx hy]
    split
    case isTrue h => exact (ahead_total e x y).resolve_right ((keeps_iff hx hy).mp h)
    case isFalse => exact Extremum.Ahead.refl Ieee.Le.refl y

/-- A number other than the infinity beyond the identity is ahead of the identity. -/
theorem ahead_floatIdentity [f.Proper] {e : Extremum} {v : Ieee f} (hv : v.isNaN = false)
    (hne : v ≠ .infinity (e == .max)) : e.Ahead Ieee.Le v (floatIdentity e) := by
  cases e with
  | min => exact Ieee.le_largest hv hne
  | max => exact Ieee.largest_le hv hne

/-- Picking through numbers, not all of them the infinity beyond the identity, ends at a value that
equals an extreme one. -/
theorem foldl_floatPick [f.Proper] {e : Extremum} {vs : List (Ieee f)}
    (hnum : ∀ v ∈ vs, v.isNaN = false) (hfin : ∃ v ∈ vs, v ≠ .infinity (e == .max)) :
    ∃ m, e.IsExtreme Ieee.Le m vs ∧
      (vs.foldl (floatPick e) (floatIdentity e)).numEq m = true := by
  have hs : (floatIdentity e : Ieee f).isNaN = false := Ieee.isNaN_largest _
  obtain ⟨hmem, -, hall⟩ := (selects_floatPick e).foldl hs hnum
  rcases hmem with heq | hmem
  · -- The fold ends at the identity: the element next to it is as extreme as the identity.
    obtain ⟨v, hv, hne⟩ := hfin
    have hback := ahead_floatIdentity (hnum v hv) hne
    rw [heq] at hall ⊢
    have hkey : (floatIdentity e : Ieee f).key = v.key := by
      have hforth := hall v hv
      cases e with
      | min => exact Int.le_antisymm hforth hback
      | max => exact Int.le_antisymm hback hforth
    refine ⟨v, ⟨hv, fun w hw => ?_⟩, Ieee.numEq_iff.mpr ⟨hs, hnum v hv, hkey⟩⟩
    exact hback.trans (hall w hw) fun _ _ _ => Ieee.Le.trans
  · have hnan := hnum _ hmem
    exact ⟨_, ⟨hmem, hall⟩, Ieee.numEq_iff.mpr ⟨hnan, hnan, rfl⟩⟩

/-- The infinity beyond the identity never replaces it. -/
theorem floatPick_infinity [f.Proper] (e : Extremum) :
    floatPick e (floatIdentity e : Ieee f) (.infinity (e == .max)) = floatIdentity e := by
  have hs : (floatIdentity e : Ieee f).isNaN = false := Ieee.isNaN_largest _
  have hkeeps : keeps e (floatIdentity e : Ieee f) (.infinity (e == .max)) = true := by
    rw [keeps_iff hs (Ieee.isNaN_infinity _)]
    cases e with
    | min => exact Ieee.not_infinity_le_largest
    | max => exact Ieee.not_largest_le_infinity
  rw [floatPick_of_numbers hs (Ieee.isNaN_infinity _), if_pos hkeeps]

/-- Picking through nothing but that infinity stays at the identity. -/
theorem foldl_floatPick_infinity [f.Proper] {e : Extremum} {vs : List (Ieee f)}
    (h : ∀ v ∈ vs, v = .infinity (e == .max)) :
    vs.foldl (floatPick e) (floatIdentity e) = floatIdentity e := by
  induction vs with
  | nil => rfl
  | cons v vs ih =>
      obtain ⟨rfl, hvs⟩ := List.forall_mem_cons.mp h
      rw [List.foldl_cons, floatPick_infinity]
      exact ih hvs

/-! ### Lists of the same values -/

/-- Picking through lists of the same values ends at values that are alike: both are NaN if one of
the values is, and otherwise they are the same number. -/
theorem alike_foldl_floatPick [f.Proper] (e : Extremum) {vs ws : List (Ieee f)}
    (hmem : ∀ v, v ∈ vs ↔ v ∈ ws) :
    (vs.foldl (floatPick e) (floatIdentity e)).Alike
      (ws.foldl (floatPick e) (floatIdentity e)) := by
  have hs : (floatIdentity e : Ieee f).isNaN = false := Ieee.isNaN_largest _
  have hany : vs.any Ieee.isNaN = ws.any Ieee.isNaN := by
    rw [Bool.eq_iff_iff, List.any_eq_true, List.any_eq_true]
    simp only [hmem]
  have hvs := isNaN_foldl_floatPick e vs (floatIdentity e)
  have hws := isNaN_foldl_floatPick e ws (floatIdentity e)
  rw [hs, Bool.false_or] at hvs hws
  cases hnan : vs.any Ieee.isNaN with
  | true => exact Or.inr ⟨hvs.trans hnan, hws.trans (hany ▸ hnan)⟩
  | false =>
      have hnum : ∀ v ∈ vs, v.isNaN = false := by simpa using hnan
      have hforth := (selects_floatPick e).ahead_foldl hs hnum hmem
      have hback := (selects_floatPick e).ahead_foldl hs
        (fun w hw => hnum w ((hmem w).mpr hw)) fun v => (hmem v).symm
      refine Or.inl (Ieee.numEq_iff.mpr ⟨hvs.trans hnan, hws.trans (hany ▸ hnan), ?_⟩)
      cases e with
      | min => exact Int.le_antisymm hforth hback
      | max => exact Int.le_antisymm hback hforth

end GroupedExtrema.Fold
