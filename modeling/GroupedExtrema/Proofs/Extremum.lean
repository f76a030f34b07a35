import GroupedExtrema.DataType

/-!
# Extreme values of a list

Folding keeps one of the two values it is given, the one that is ahead. Over a whole list this ends
at the start value or at an element of the list, and nothing seen on the way is ahead of it. If
everything is ahead of the start value, as of the identities the kernels start from, the result of a
list that is not empty is one of its elements: an extreme one.
-/

namespace GroupedExtrema

variable {α : Type}

namespace Extremum

/-- Is `x` at least as extreme as `y`? At most `y` for the minimum, at least `y` for the
maximum. -/
def Ahead (e : Extremum) (le : α → α → Prop) (x y : α) : Prop :=
  match e with
  | min => le x y
  | max => le y x

/-- `x` is a least element of a list for the minimum, a greatest one for the maximum. -/
structure IsExtreme (e : Extremum) (le : α → α → Prop) (x : α) (vs : List α) : Prop where
  mem : x ∈ vs
  ahead : ∀ v ∈ vs, e.Ahead le x v

theorem Ahead.refl {e : Extremum} {le : α → α → Prop} (h : ∀ x, le x x) (x : α) :
    e.Ahead le x x := by
  cases e <;> exact h x

theorem Ahead.trans {e : Extremum} {le : α → α → Prop} {x y z : α} (hxy : e.Ahead le x y)
    (hyz : e.Ahead le y z) (h : ∀ x y z, le x y → le y z → le x z) : e.Ahead le x z := by
  cases e with
  | min => exact h x y z hxy hyz
  | max => exact h z y x hyz hxy

theorem Ahead.antisymm {e : Extremum} {le : α → α → Prop} {x y : α} (hxy : e.Ahead le x y)
    (hyx : e.Ahead le y x) (h : ∀ x y, le x y → le y x → x = y) : x = y := by
  cases e with
  | min => exact h x y hxy hyx
  | max => exact h x y hyx hxy

/-- A map that keeps the order takes an extreme value to an extreme one. -/
theorem IsExtreme.map {β : Type} {e : Extremum} {le : α → α → Prop} {le' : β → β → Prop} {x : α}
    {vs : List α} (h : e.IsExtreme le x vs) {f : α → β} (hf : ∀ v w, le v w → le' (f v) (f w)) :
    e.IsExtreme le' (f x) (vs.map f) where
  mem := List.mem_map_of_mem h.mem
  ahead := by
    intro w hw
    obtain ⟨v, hv, rfl⟩ := List.mem_map.mp hw
    have hahead := h.ahead v hv
    cases e with
    | min => exact hf x v hahead
    | max => exact hf v x hahead

end Extremum

/-! ### Maxima of machine integers -/

/-- The maximum that prefers its second argument on a tie is a maximum of a linear order. -/
theorem lawfulOrderMax_of_eq_ite [LE α] [DecidableLE α] [Max α] [Std.IsLinearOrder α]
    (h : ∀ x y : α, max x y = if x ≤ y then y else x) : Std.LawfulOrderMax α := by
  refine .of_le_max ?_ ?_ ?_
  · intro x y
    rw [h]
    split
    · assumption
    · exact Std.le_refl x
  · intro x y
    rw [h]
    split
    · exact Std.le_refl y
    · exact Std.le_of_not_ge ‹_›
  · intro x y
    rw [h]
    split
    · exact Or.inr rfl
    · exact Or.inl rfl

instance instLawfulOrderMaxInt32 : Std.LawfulOrderMax Int32 :=
  lawfulOrderMax_of_eq_ite fun _ _ => rfl

instance instLawfulOrderMaxInt64 : Std.LawfulOrderMax Int64 :=
  lawfulOrderMax_of_eq_ite fun _ _ => rfl

instance instLawfulOrderMaxUInt32 : Std.LawfulOrderMax UInt32 :=
  lawfulOrderMax_of_eq_ite fun _ _ => rfl

/-! ### Folds that select -/

/-- On values with `p`, `f` keeps one of its two arguments, and neither is ahead of it. -/
structure Selects (p : α → Prop) (ahead : α → α → Prop) (f : α → α → α) : Prop where
  refl : ∀ x, ahead x x
  trans : ∀ x y z, ahead x y → ahead y z → ahead x z
  choice : ∀ x y, p x → p y → f x y = x ∨ f x y = y
  ahead_left : ∀ x y, p x → p y → ahead (f x y) x
  ahead_right : ∀ x y, p x → p y → ahead (f x y) y

namespace Selects

variable {p : α → Prop} {ahead : α → α → Prop} {f : α → α → α}

/-- A whole fold selects among its start value and the list. -/
theorem foldl (h : Selects p ahead f) {s : α} (hs : p s) {vs : List α} (hvs : ∀ v ∈ vs, p v) :
    (vs.foldl f s = s ∨ vs.foldl f s ∈ vs) ∧ ahead (vs.foldl f s) s ∧
      ∀ v ∈ vs, ahead (vs.foldl f s) v := by
  induction vs generalizing s with
  | nil => exact ⟨Or.inl rfl, h.refl s, by simp⟩
  | cons v vs ih =>
      have hv : p v := hvs v List.mem_cons_self
      have hchoice := h.choice s v hs hv
      have hp : p (f s v) := by
        rcases hchoice with heq | heq <;> rw [heq] <;> assumption
      -- The rest of the list is folded from `f s v`, which is ahead of both.
      obtain ⟨hmem, hstart, hall⟩ := ih hp fun w hw => hvs w (List.mem_cons_of_mem v hw)
      rw [List.foldl_cons]
      refine ⟨?_, h.trans _ _ _ hstart (h.ahead_left s v hs hv), ?_⟩
      · rcases hmem with heq | hmem
        · rw [heq]
          rcases hchoice with heq' | heq'
          · exact Or.inl heq'
          · exact Or.inr (List.mem_cons.mpr (Or.inl heq'))
        · exact Or.inr (List.mem_cons_of_mem v hmem)
      · intro w hw
        rcases List.mem_cons.mp hw with rfl | hw
        · exact h.trans _ _ _ hstart (h.ahead_right s _ hs hv)
        · exact hall w hw

/-- If everything is ahead of the start value, a list that is not empty decides the fold. -/
theorem foldl_mem (h : Selects p ahead f) (antisymm : ∀ x y, ahead x y → ahead y x → x = y)
    {s : α} (hs : p s) (bottom : ∀ v, p v → ahead v s) {vs : List α} (hvs : ∀ v ∈ vs, p v)
    (hne : vs ≠ []) : vs.foldl f s ∈ vs ∧ ∀ v ∈ vs, ahead (vs.foldl f s) v := by
  obtain ⟨hmem, -, hall⟩ := h.foldl hs hvs
  refine ⟨?_, hall⟩
  rcases hmem with heq | hmem
  · -- The fold never left its start, so the first element is no further than the start.
    obtain ⟨v, rest, rfl⟩ := List.exists_cons_of_ne_nil hne
    have hv := hall v List.mem_cons_self
    rw [heq] at hv ⊢
    rw [antisymm _ _ hv (bottom v (hvs v List.mem_cons_self))]
    exact List.mem_cons_self
  · exact hmem

/-- The result for a list is ahead of the result for any list of the same values, however often and
in which order they occur. -/
theorem ahead_foldl (h : Selects p ahead f) {s : α} (hs : p s) {vs ws : List α}
    (hvs : ∀ v ∈ vs, p v) (hmem : ∀ v, v ∈ vs ↔ v ∈ ws) :
    ahead (vs.foldl f s) (ws.foldl f s) := by
  obtain ⟨-, hstart, hall⟩ := h.foldl hs hvs
  obtain ⟨hresult, -, -⟩ := h.foldl hs fun w hw => hvs w ((hmem w).mpr hw)
  rcases hresult with heq | hresult
  · rw [heq]
    exact hstart
  · exact hall _ ((hmem _).mpr hresult)

end Selects

/-- The smaller and the larger of two values of a linear order are selections. -/
theorem Extremum.selects_pick [LE α] [Min α] [Max α] [Std.IsLinearOrder α] [Std.LawfulOrderMin α]
    [Std.LawfulOrderMax α] (e : Extremum) :
    Selects (fun _ => True) (e.Ahead (· ≤ ·)) (e.pick : α → α → α) where
  refl := Ahead.refl Std.le_refl
  trans := fun _ _ _ hxy hyz => hxy.trans hyz fun _ _ _ => Std.le_trans
  choice := by
    intro x y _ _
    cases e with
    | min => exact Std.MinEqOr.min_eq_or x y
    | max => exact Std.MaxEqOr.max_eq_or x y
  ahead_left := by
    intro x y _ _
    cases e with
    | min => exact Std.min_le_left
    | max => exact Std.left_le_max
  ahead_right := by
    intro x y _ _
    cases e with
    | min => exact Std.min_le_right
    | max => exact Std.right_le_max

/-- Picking through lists of the same values ends at the same one. -/
theorem Extremum.foldl_pick_congr [LE α] [Min α] [Max α] [Std.IsLinearOrder α]
    [Std.LawfulOrderMin α] [Std.LawfulOrderMax α] (e : Extremum) (s : α) {vs ws : List α}
    (hmem : ∀ v, v ∈ vs ↔ v ∈ ws) : vs.foldl e.pick s = ws.foldl e.pick s := by
  have hforth := e.selects_pick.ahead_foldl (s := s) trivial (fun _ _ => trivial) hmem
  have hback := e.selects_pick.ahead_foldl (s := s) trivial (fun _ _ => trivial)
    fun v => (hmem v).symm
  exact hforth.antisymm hback fun _ _ => Std.le_antisymm

/-- A list that is not empty has an extreme element. -/
theorem Extremum.exists_isExtreme [LE α] [Min α] [Max α] [Std.IsLinearOrder α]
    [Std.LawfulOrderMin α] [Std.LawfulOrderMax α] (e : Extremum) {vs : List α} (hne : vs ≠ []) :
    ∃ x, e.IsExtreme (· ≤ ·) x vs := by
  obtain ⟨v, rest, rfl⟩ := List.exists_cons_of_ne_nil hne
  have hrest : ∀ w ∈ rest, True := fun _ _ => trivial
  obtain ⟨hmem, hstart, hall⟩ := e.selects_pick.foldl (s := v) trivial hrest
  exact ⟨_, List.mem_cons.mpr hmem, List.forall_mem_cons.mpr ⟨hstart, hall⟩⟩

/-- Picking through a list from a value that everything is ahead of ends at an extreme element. -/
theorem Extremum.isExtreme_foldl_pick [LE α] [Min α] [Max α] [Std.IsLinearOrder α]
    [Std.LawfulOrderMin α] [Std.LawfulOrderMax α] {e : Extremum} {s : α}
    (bottom : ∀ v, e.Ahead (· ≤ ·) v s) {vs : List α} (hne : vs ≠ []) :
    e.IsExtreme (· ≤ ·) (vs.foldl e.pick s) vs := by
  obtain ⟨hmem, hall⟩ := e.selects_pick.foldl_mem
    (fun _ _ hxy hyx => hxy.antisymm hyx fun _ _ => Std.le_antisymm) trivial
    (fun v _ => bottom v) (fun _ _ => trivial) hne
  exact ⟨hmem, hall⟩

end GroupedExtrema
