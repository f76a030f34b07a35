import GroupedExtrema.Proofs.Alike

/-!
# Accumulating sets of rows

Whatever is accumulated successfully, only two things show in the end: which values there were for
which ordinals, and how large the largest ordinal was. The order of the rows does not show, nor how
often a row came, nor where one column ended and the next one began, nor any null row among others.

The reason is that every slot holds the values of its rows combined, which depends on the set of
these values only, and that the number of chunks is that of the largest ordinal, unless there were
more already.
-/

namespace GroupedExtrema

/-- A column with the ordinals of its rows. -/
structure Feed where
  input : Column
  ordinals : List UInt32

/-- The call that accumulates the column. -/
def Feed.call (f : Feed) : Call := .accumulate f.input f.ordinals

/-! ### Rows -/

/-- The rows of some columns with their ordinals, one column after the other. -/
def Kernel.rows (k : Kernel) (feeds : List Feed) : List (UInt32 × Option k.Value) :=
  feeds.flatMap fun f => f.ordinals.zip (k.entries f.input)

namespace Kernel

variable {k : Kernel}

@[simp] theorem rows_nil : k.rows [] = [] := rfl

@[simp] theorem rows_cons (f : Feed) (feeds : List Feed) :
    k.rows (f :: feeds) = f.ordinals.zip (k.entries f.input) ++ k.rows feeds := List.flatMap_cons

@[simp] theorem rows_append (feeds feeds' : List Feed) :
    k.rows (feeds ++ feeds') = k.rows feeds ++ k.rows feeds' := List.flatMap_append

/-- If no column is too short, every ordinal has a row. -/
theorem map_fst_rows {feeds : List Feed}
    (h : ∀ f ∈ feeds, f.ordinals.length ≤ (k.entries f.input).length) :
    (k.rows feeds).map Prod.fst = feeds.flatMap Feed.ordinals := by
  induction feeds with
  | nil => rfl
  | cons f feeds ih =>
      obtain ⟨hf, hfeeds⟩ := List.forall_mem_cons.mp h
      rw [rows_cons, List.map_append, List.map_fst_zip hf, ih hfeeds, List.flatMap_cons]

/-- The values for a slot are those of the rows with its ordinal. -/
theorem mem_valuesUnder {rows : List (Option k.Value)} {ordinals : List UInt32} {n : Nat}
    {v : k.Value} :
    v ∈ valuesUnder rows ordinals n ↔
      ∃ o : UInt32, o.toNat = n ∧ (o, some v) ∈ ordinals.zip rows := by
  rw [valuesUnder, List.mem_filterMap]
  constructor
  · rintro ⟨⟨o, w⟩, hmem, hw⟩
    dsimp only at hw
    by_cases ho : o.toNat = n
    · rw [if_pos ho] at hw
      exact ⟨o, ho, hw ▸ hmem⟩
    · rw [if_neg ho] at hw
      exact absurd hw (by simp)
  · rintro ⟨o, ho, hmem⟩
    exact ⟨(o, some v), hmem, if_pos ho⟩

end Kernel

/-! ### Accumulating all of them -/

namespace Accumulator

variable {k : Kernel} {e : Extremum} {l : ChunkLayout} {a : Accumulator k}
  {V : Nat → List k.Value} {budget : Budget}

/-- All columns are accumulated successfully, one after the other. -/
def Accepts (a : Accumulator k) (budget : Budget) (feeds : List Feed) : Prop :=
  ∀ r ∈ a.history budget (feeds.map Feed.call), r.2 = .ok ()

instance (a : Accumulator k) (budget : Budget) (feeds : List Feed) :
    Decidable (a.Accepts budget feeds) :=
  inferInstanceAs (Decidable (∀ r ∈ a.history budget (feeds.map Feed.call), r.2 = .ok ()))

/-- The accumulator after some columns. -/
def fed (a : Accumulator k) (budget : Budget) (feeds : List Feed) : Accumulator k :=
  (a.run budget (feeds.map Feed.call)).1

/-- A column that is accumulated successfully has rows for all ordinals, and their slots exist
afterwards. -/
theorem Holds.accumulate_ok (h : a.Holds e l V) {input : Column} (hinput : input.WellFormed)
    {ordinals : List UInt32} (hok : (a.accumulate budget input ordinals).1 = .ok ()) :
    (a.accumulate budget input ordinals).2.1.Holds e l
        (fun n => V n ++ valuesUnder (k.entries input) ordinals n) ∧
      (a.accumulate budget input ordinals).2.1.size =
        max a.size (l.chunksForOrdinals ordinals) ∧
      ordinals.length ≤ (k.entries input).length := by
  have hlayout : a.layout = l := h.layout_eq
  have hstep := h.step (c := .accumulate input ordinals) hinput budget
  rw [show a.step budget (.accumulate input ordinals) = a.accumulate budget input ordinals
    from rfl, hok] at hstep
  rcases h.toFits.accumulate_cases hinput budget ordinals with
    ⟨err, heq⟩ | ⟨r, t, heq, ⟨⟨err, rfl⟩, rfl⟩ | ⟨rfl, hlen, hfolds⟩⟩
  · rw [heq] at hok
    exact absurd hok (by simp)
  · rw [heq] at hok
    exact absurd hok (by simp)
  · refine ⟨hstep, ?_, hlen⟩
    rw [heq]
    have hsize := hfolds.size_eq
    rw [SlotTable.size_extend, missing, hlayout] at hsize
    show t.size = max a.slots.size (l.chunksForOrdinals ordinals)
    have hsame : a.size = a.slots.size := rfl
    omega

/-- What an accumulator holds, and how large it is, after columns that it has accepted. -/
structure AfterRows (e : Extremum) (l : ChunkLayout) (a : Accumulator k) (V : Nat → List k.Value)
    (feeds : List Feed) (a' : Accumulator k) (W : Nat → List k.Value) : Prop where
  holds : a'.Holds e l W
  mem_iff : ∀ n v, v ∈ W n ↔ v ∈ V n ∨ ∃ o : UInt32, o.toNat = n ∧ (o, some v) ∈ k.rows feeds
  size_eq : a'.size = max a.size (l.chunksForOrdinals (feeds.flatMap Feed.ordinals))
  length_le : ∀ f ∈ feeds, f.ordinals.length ≤ (k.entries f.input).length

theorem Holds.fed (h : a.Holds e l V) {feeds : List Feed}
    (hwf : ∀ f ∈ feeds, f.input.WellFormed) (hok : a.Accepts budget feeds) :
    ∃ W, AfterRows e l a V feeds (a.fed budget feeds) W := by
  induction feeds generalizing a V budget with
  | nil =>
      refine ⟨V, h, fun n v => ?_, ?_, fun f hf => absurd hf List.not_mem_nil⟩
      · simp
      · exact (Nat.max_eq_left (Nat.zero_le a.size)).symm
  | cons f feeds ih =>
      obtain ⟨hf, hfeeds⟩ := List.forall_mem_cons.mp hwf
      obtain ⟨hokf, hokfeeds⟩ := List.forall_mem_cons.mp hok
      obtain ⟨hheld, hsize, hlen⟩ := h.accumulate_ok hf hokf
      obtain ⟨W, hW⟩ := ih hheld hfeeds hokfeeds
      refine ⟨W, hW.holds, fun n v => ?_, ?_, List.forall_mem_cons.mpr ⟨hlen, hW.length_le⟩⟩
      · rw [hW.mem_iff, List.mem_append, Kernel.mem_valuesUnder, Kernel.rows_cons]
        simp only [List.mem_append, and_or_left, exists_or, or_assoc]
      · rw [List.flatMap_cons, ChunkLayout.chunksForOrdinals_append, ← Nat.max_assoc, ← hsize]
        exact hW.size_eq

end Accumulator

/-! ### The same rows -/

/-- The columns have rows with the same values for the same ordinals, null rows apart, and the same
largest ordinal, if any. -/
structure Kernel.SameRows (k : Kernel) (feeds feeds' : List Feed) : Prop where
  mem_iff : ∀ o v, (o, some v) ∈ k.rows feeds ↔ (o, some v) ∈ k.rows feeds'
  largest_eq : (feeds.flatMap Feed.ordinals).max? = (feeds'.flatMap Feed.ordinals).max?

/-- The second columns have the rows of the first ones, in any order and divided between columns in
any way, and further rows of three kinds: rows that the first columns have, rows with values `V`
that have been accumulated before, and null rows whose ordinals are no larger than one there is. -/
def Kernel.Rearranges (k : Kernel) (V : Nat → List k.Value) (feeds feeds' : List Feed) : Prop :=
  ∃ further, (k.rows feeds').Perm (k.rows feeds ++ further) ∧ ∀ r ∈ further,
    r ∈ k.rows feeds ∨ (∃ v ∈ V r.1.toNat, r.2 = some v) ∨
      r.2 = none ∧ ∃ r' ∈ k.rows feeds, r.1 ≤ r'.1

/-- One of the columns is split before one of its rows into two columns. -/
def Kernel.Splits (k : Kernel) (feeds feeds' : List Feed) : Prop :=
  ∃ before after input left right os os', feeds = before ++ ⟨input, os ++ os'⟩ :: after ∧
    feeds' = before ++ ⟨left, os⟩ :: ⟨right, os'⟩ :: after ∧
    k.entries input = k.entries left ++ k.entries right ∧ os.length = (k.entries left).length

namespace Kernel

variable {k : Kernel} {V : Nat → List k.Value} {feeds feeds' : List Feed}

/-- Splitting a column keeps the rows. -/
theorem Splits.rows_eq (h : k.Splits feeds feeds') : k.rows feeds = k.rows feeds' := by
  obtain ⟨before, after, input, left, right, os, os', rfl, rfl, hentries, hlen⟩ := h
  simp only [rows_append, rows_cons]
  rw [hentries, List.zip_append hlen, List.append_assoc]

/-- The same list of rows is a rearrangement of them, however it is divided between columns. -/
theorem rearranges_of_rows_eq (h : k.rows feeds = k.rows feeds') : k.Rearranges V feeds feeds' :=
  ⟨[], by rw [h, List.append_nil], fun r hr => absurd hr List.not_mem_nil⟩

end Kernel

namespace Accumulator

variable {k : Kernel} {e : Extremum} {l : ChunkLayout} {a : Accumulator k}
  {V : Nat → List k.Value} {b₁ b₂ : Budget} {feeds₁ feeds₂ : List Feed}

/-- Sequences of accepted columns lead to accumulators that are alike if they make them as large and
their values differ at most in what had been accumulated before. -/
theorem AfterRows.alike {a₁ a₂ : Accumulator k} {W₁ W₂ : Nat → List k.Value}
    (h₁ : AfterRows e l a V feeds₁ a₁ W₁) (h₂ : AfterRows e l a V feeds₂ a₂ W₂)
    (hsize : a₁.size = a₂.size)
    (hvalues : ∀ o v, v ∈ V o.toNat ∨ (o, some v) ∈ k.rows feeds₁ ↔
      v ∈ V o.toNat ∨ (o, some v) ∈ k.rows feeds₂) : a₁.Alike a₂ := by
  refine h₁.holds.alike h₂.holds hsize fun n v => ?_
  rw [h₁.mem_iff, h₂.mem_iff]
  constructor
  · rintro (hv | ⟨o, rfl, hrow⟩)
    · exact Or.inl hv
    · exact ((hvalues o v).mp (Or.inr hrow)).imp_right fun hrow => ⟨o, rfl, hrow⟩
  · rintro (hv | ⟨o, rfl, hrow⟩)
    · exact Or.inl hv
    · exact ((hvalues o v).mpr (Or.inr hrow)).imp_right fun hrow => ⟨o, rfl, hrow⟩

theorem AfterRows.alike_of_sameRows {a₁ a₂ : Accumulator k} {W₁ W₂ : Nat → List k.Value}
    (h₁ : AfterRows e l a V feeds₁ a₁ W₁) (h₂ : AfterRows e l a V feeds₂ a₂ W₂)
    (h : k.SameRows feeds₁ feeds₂) : a₁.Alike a₂ := by
  refine h₁.alike h₂ ?_ fun o v => or_congr_right (h.mem_iff o v)
  rw [h₁.size_eq, h₂.size_eq, ChunkLayout.chunksForOrdinals, ChunkLayout.chunksForOrdinals,
    h.largest_eq]

/-- The chunks are no more than some number exactly if there were no more before and the slots of
all rows are among so many. -/
theorem AfterRows.size_le_iff {a' : Accumulator k} {W : Nat → List k.Value} {feeds : List Feed}
    (h : AfterRows e l a V feeds a' W) (n : Nat) :
    a'.size ≤ n ↔ a.size ≤ n ∧ ∀ r ∈ k.rows feeds, (l.slot r.1.toNat).chunk < n := by
  rw [h.size_eq, Nat.max_le, ChunkLayout.chunksForOrdinals_le_iff,
    ← Kernel.map_fst_rows h.length_le, List.forall_mem_map]

/-- Rows in another order and further rows need no further chunks. -/
theorem AfterRows.size_eq_of_rearranges {a₁ a₂ : Accumulator k} {W₁ W₂ : Nat → List k.Value}
    (ha : a.Holds e l V) (h₁ : AfterRows e l a V feeds₁ a₁ W₁)
    (h₂ : AfterRows e l a V feeds₂ a₂ W₂) (h : k.Rearranges V feeds₁ feeds₂) :
    a₁.size = a₂.size := by
  obtain ⟨further, hperm, hfurther⟩ := h
  obtain ⟨hbefore₁, hrows₁⟩ := (h₁.size_le_iff a₁.size).mp (Nat.le_refl _)
  obtain ⟨hbefore₂, hrows₂⟩ := (h₂.size_le_iff a₂.size).mp (Nat.le_refl _)
  apply Nat.le_antisymm
  · refine (h₁.size_le_iff _).mpr ⟨hbefore₂, fun r hr => hrows₂ r ?_⟩
    exact hperm.mem_iff.mpr (List.mem_append_left further hr)
  · refine (h₂.size_le_iff _).mpr ⟨hbefore₁, fun r hr => ?_⟩
    rcases List.mem_append.mp (hperm.mem_iff.mp hr) with hr | hr
    · exact hrows₁ r hr
    · rcases hfurther r hr with hr | ⟨v, hv, -⟩ | ⟨-, r', hr', hle⟩
      · exact hrows₁ r hr
      · -- A slot that holds a value exists already.
        refine Nat.lt_of_lt_of_le (Nat.not_le.mp fun hle => ?_) hbefore₁
        rw [ha.eq_nil _ hle] at hv
        exact List.not_mem_nil hv
      · exact Nat.lt_of_le_of_lt (l.slot_chunk_le hle) (hrows₁ r' hr')

theorem AfterRows.alike_of_rearranges {a₁ a₂ : Accumulator k} {W₁ W₂ : Nat → List k.Value}
    (ha : a.Holds e l V) (h₁ : AfterRows e l a V feeds₁ a₁ W₁)
    (h₂ : AfterRows e l a V feeds₂ a₂ W₂) (h : k.Rearranges V feeds₁ feeds₂) : a₁.Alike a₂ := by
  refine h₁.alike h₂ (h₁.size_eq_of_rearranges ha h₂ h) fun o v => ?_
  obtain ⟨further, hperm, hfurther⟩ := h
  rw [hperm.mem_iff, List.mem_append]
  constructor
  · exact Or.imp_right Or.inl
  · rintro (hv | hrow | hrow)
    · exact Or.inl hv
    · exact Or.inr hrow
    · rcases hfurther _ hrow with hrow | ⟨w, hw, heq⟩ | ⟨hnone, -⟩
      · exact Or.inr hrow
      · rw [Option.some.inj heq]
        exact Or.inl hw
      · exact absurd hnone (by simp)

/-- From any accumulator that calls can lead to, two sequences of columns that are accepted lead to
accumulators that are alike if they have the same rows, if one rearranges the rows of the other, or
if a column is split or two are merged. -/
theorem Reachable.alike_fed (h : Reachable e l a V)
    (hwf₁ : ∀ f ∈ feeds₁, f.input.WellFormed) (hwf₂ : ∀ f ∈ feeds₂, f.input.WellFormed)
    (hok₁ : a.Accepts b₁ feeds₁) (hok₂ : a.Accepts b₂ feeds₂) :
    (k.SameRows feeds₁ feeds₂ → (a.fed b₁ feeds₁).Alike (a.fed b₂ feeds₂)) ∧
    (k.Rearranges V feeds₁ feeds₂ → (a.fed b₁ feeds₁).Alike (a.fed b₂ feeds₂)) ∧
    (k.Splits feeds₁ feeds₂ ∨ k.Splits feeds₂ feeds₁ →
      (a.fed b₁ feeds₁).Alike (a.fed b₂ feeds₂)) := by
  obtain ⟨W₁, h₁⟩ := h.holds.fed hwf₁ hok₁
  obtain ⟨W₂, h₂⟩ := h.holds.fed hwf₂ hok₂
  refine ⟨h₁.alike_of_sameRows h₂, h₁.alike_of_rearranges h.holds h₂, ?_⟩
  rintro (hsplit | hmerge)
  · exact h₁.alike_of_rearranges h.holds h₂ (Kernel.rearranges_of_rows_eq hsplit.rows_eq)
  · exact h₁.alike_of_rearranges h.holds h₂ (Kernel.rearranges_of_rows_eq hmerge.rows_eq.symm)

/-- A column may be split, and it may come in pieces in another order with one of its rows twice.
Once it has been accumulated, one of its rows does not show when it comes again. -/
theorem Reachable.alike_fed_of_split :
    ∃ a, Accumulator.create .int32 .min .int32 ⟨5, by decide, by decide⟩ = .ok a ∧
      (a.fed (.ofLimit none) [⟨.int32 (.ofOptions 0 [some 4, none, some 2]), [3, 40, 3]⟩]).Alike
        (a.fed (.ofLimit none) [⟨.int32 (.ofValues #[4]), [3]⟩,
          ⟨.int32 (.ofOptions 1 [none, some 2]), [40, 3]⟩]) ∧
      (a.fed (.ofLimit none) [⟨.int32 (.ofOptions 0 [some 4, none, some 2]), [3, 40, 3]⟩]).Alike
        (a.fed (.ofLimit none) [⟨.int32 (.ofValues #[2, 2]), [3, 3]⟩,
          ⟨.int32 (.ofOptions 1 [none, some 4]), [40, 3]⟩]) ∧
      let b := (a.step (.ofLimit none)
        (.accumulate (.int32 (.ofOptions 0 [some 4, none, some 2])) [3, 40, 3])).2.1
      (b.fed (.ofLimit none) []).Alike
        (b.fed (.ofLimit none) [⟨.int32 (.ofValues #[4]), [3]⟩]) := by
  obtain ⟨a, ha⟩ : ∃ a, Accumulator.create .int32 .min .int32 ⟨5, by decide, by decide⟩ = .ok a :=
    ⟨_, rfl⟩
  have hmade := Reachable.create ha
  obtain rfl := Except.ok.inj ha
  refine ⟨_, rfl, ?_, ?_, ?_⟩
  · exact (hmade.alike_fed (by decide) (by decide) (by decide +kernel) (by decide +kernel)).2.2
      (Or.inl ⟨[], [], _, _, _, [3], [40, 3], rfl, rfl, rfl, rfl⟩)
  · refine (hmade.alike_fed (by decide) (by decide) (by decide +kernel) (by decide +kernel)).1
      ⟨fun o v => ?_, by decide +kernel⟩
    rw [show Kernel.int32.rows [⟨.int32 (.ofOptions 0 [some 4, none, some 2]), [3, 40, 3]⟩] =
        [(3, some 4), (40, none), (3, some 2)] from rfl,
      show Kernel.int32.rows [⟨.int32 (.ofValues #[2, 2]), [3, 3]⟩,
          ⟨.int32 (.ofOptions 1 [none, some 4]), [40, 3]⟩] =
        [(3, some 2), (3, some 2), (40, none), (3, some 4)] from rfl]
    grind
  · have hstep := hmade.step (.ofLimit none) (c := .accumulate
      (.int32 (.ofOptions 0 [some 4, none, some 2])) [3, 40, 3]) (by decide)
    refine (hstep.alike_fed (by decide) (by decide) (by decide +kernel) (by decide +kernel)).2.1
      ⟨[(3, some 4)], by decide, ?_⟩
    intro r hr
    obtain rfl := List.mem_singleton.mp hr
    exact Or.inr (Or.inl ⟨4, by decide +kernel, rfl⟩)

end Accumulator

end GroupedExtrema
