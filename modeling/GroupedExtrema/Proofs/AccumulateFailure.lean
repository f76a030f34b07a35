import GroupedExtrema.Proofs.Bounds
import GroupedExtrema.Proofs.LogicalRows

/-!
# When accumulating fails

There are three reasons for which a column is not folded: it has fewer rows than there are ordinals,
the chunks for the largest ordinal cannot be had, or it is of another type than the accumulator. They
are looked for in this order, and the first one found is the error. Nothing else can go wrong.

So a failed call never changes what is in a slot. Only the last of the reasons is found after the
accumulator has grown, and then the growth is kept: `accumulate` leaves exactly what `resize` would
have left.
-/

namespace GroupedExtrema

/-! ### Types -/

/-- Two data types are the same, up to precision and scale of decimals. -/
def DataType.SameVariant : DataType → DataType → Prop
  | decimal128 _, decimal128 _ => True
  | t, t' => t = t'

namespace Kernel

variable {k : Kernel}

/-- All data types of a kernel are the same, up to precision and scale of decimals. -/
theorem ofDataType?_eq_some_iff {t t' : DataType} (h : ofDataType? t = some k) :
    ofDataType? t' = some k ↔ t'.SameVariant t := by
  cases t with
  | null => exact absurd h (by simp [ofDataType?])
  | decimal128 type =>
      obtain rfl := Option.some.inj h
      cases t' <;> simp [ofDataType?, DataType.SameVariant]
  | _ =>
      obtain rfl := Option.some.inj h
      cases t' <;> simp [ofDataType?, DataType.SameVariant]

/-- A kernel that was made for a data type takes null columns and columns of that type. -/
theorem takes_iff {t : DataType} (h : k.accepts t = true) (c : Column) :
    k.Takes c ↔ c.datatype = .null ∨ c.datatype.SameVariant t := by
  rw [Takes, or_comm, accepts, beq_iff_eq, ofDataType?_eq_some_iff (eq_of_beq h)]

/-- A column that a kernel does not take is not null, and the kernel does not read it. -/
theorem reader?_of_not_takes {c : Column} (h : ¬ k.Takes c) : k.reader? c = none := by
  cases hread : k.reader? c with
  | none => rfl
  | some read =>
      refine absurd (Or.inl ?_) h
      unfold reader? at hread
      split at hread
      case h_8 => exact absurd hread (by simp)
      all_goals rfl

end Kernel

namespace Accumulator

variable {k : Kernel} {a : Accumulator k} {l : ChunkLayout} {budget : Budget} {input : Column}
  {ordinals : List UInt32}

/-! ### The three reasons -/

theorem foldColumn_of_not_takes (h : ¬ k.Takes input) (a : Accumulator k)
    (ordinals : List UInt32) :
    a.foldColumn input ordinals = (.error (.wrongInput a.name input.datatype), a) := by
  have hread := Kernel.reader?_of_not_takes h
  cases input with
  | null rows => exact absurd (Or.inr rfl) h
  | _ => simp only [foldColumn, hread]

/-- Accumulating is growing for the ordinals and then folding the column. -/
theorem accumulate_eq_resize (a : Accumulator k) (budget : Budget) (input : Column)
    (ordinals : List UInt32) :
    a.accumulate budget input ordinals =
      if input.length < ordinals.length then
        (.error (.inputTooShort input.length ordinals.length), a, budget)
      else
        match a.resize budget (a.layout.chunksForOrdinals ordinals) with
        | (.error err, a', budget') => (.error err, a', budget')
        | (.ok (), a', budget') =>
          ((a'.foldColumn input ordinals).1, (a'.foldColumn input ordinals).2, budget') := by
  rw [accumulate_eq, SlotTable.ensureOrdinals_eq, resize, show a.layout = a.slots.layout from rfl]
  split
  case isTrue => rfl
  case isFalse =>
      rcases a.slots.ensureChunks budget (a.slots.layout.chunksForOrdinals ordinals) with
        ⟨⟨err⟩ | ⟨⟨⟩⟩, slots, budget'⟩ <;> rfl

/-! ### What is left -/

/-- The second accumulator is the first one with all chunks up to a number added, whose slots hold
the identity and are not valid. -/
structure GrewTo (l : ChunkLayout) (chunks : Nat) (a a' : Accumulator k) : Prop where
  size_eq : a'.size = max a.size chunks
  old_values : ∀ c < a.size, a'.valueChunk? c = a.valueChunk? c
  old_words : ∀ c < a.size, a'.validityChunk? c = a.validityChunk? c
  new_values : ∀ c, a.size ≤ c → c < chunks →
    a'.valueChunk? c = some (Array.replicate (k.cellsPerChunk l) (k.identity a.extremum))
  new_words : ∀ c, a.size ≤ c → c < chunks →
    a'.validityChunk? c = some (Array.replicate l.wordsPerChunk 0)

theorem UsesLayout.grewTo_extend (h : a.UsesLayout l) (chunks : Nat) :
    a.GrewTo l chunks (a.extend (chunks - a.size)) := by
  by_cases hlt : a.size < chunks
  · have hgrown := (SlotTable.Reachable.hasShape h).grownTo_extend hlt
    exact ⟨hgrown.size_cells.trans (Nat.max_eq_right (Nat.le_of_lt hlt)).symm, hgrown.old_cells,
      hgrown.old_words, hgrown.new_cells, hgrown.new_words⟩
  · have hle := Nat.not_lt.mp hlt
    rw [Nat.sub_eq_zero_of_le hle, extend_zero]
    exact ⟨(Nat.max_eq_left hle).symm, fun _ _ => rfl, fun _ _ => rfl, fun c hc hc' => by omega,
      fun c hc hc' => by omega⟩

/-- Growing changes nothing, or it adds all chunks that are missing. -/
theorem Fits.resize_cases (h : a.Fits) (budget : Budget) (chunks : Nat) :
    (∃ err, a.resize budget chunks = (.error err, a, budget)) ∨
      ∃ budget', a.resize budget chunks = (.ok (), a.extend (chunks - a.size), budget') := by
  unfold resize
  rcases h.wellFormed.ensureChunks_cases budget chunks with ⟨err, heq⟩ | heq
  · rw [heq]
    exact Or.inl ⟨err, rfl⟩
  · rw [heq]
    exact Or.inr ⟨_, rfl⟩

/-- The type of the column is looked at last: a column of another type is refused, and any other one
is folded. -/
theorem UsesLayout.accumulate_cases (h : a.UsesLayout l) (budget : Budget)
    (hinput : input.WellFormed) (hlen : ordinals.length ≤ input.length) :
    (∃ err, a.resize budget (l.chunksForOrdinals ordinals) = (.error err, a, budget) ∧
        a.accumulate budget input ordinals = (.error err, a, budget)) ∨
      ∃ a' budget', a.resize budget (l.chunksForOrdinals ordinals) = (.ok (), a', budget') ∧
        a.GrewTo l (l.chunksForOrdinals ordinals) a' ∧
        (¬ k.Takes input ∧ a.accumulate budget input ordinals =
            (.error (.wrongInput a.name input.datatype), a', budget') ∨
          k.Takes input ∧ ∃ a'', a.accumulate budget input ordinals = (.ok (), a'', budget') ∧
            a''.size = a'.size) := by
  obtain rfl := h.layout_eq
  have heq := a.accumulate_eq_resize budget input ordinals
  rw [if_neg (Nat.not_lt.mpr hlen)] at heq
  rcases h.fits.resize_cases budget (a.layout.chunksForOrdinals ordinals) with
    ⟨err, hgrow⟩ | ⟨budget', hgrow⟩
  · rw [hgrow] at heq
    exact Or.inl ⟨err, hgrow, heq⟩
  · rw [hgrow] at heq
    dsimp only at heq
    refine Or.inr ⟨_, budget', hgrow, h.grewTo_extend _, ?_⟩
    by_cases htakes : k.Takes input
    · have hfits : (a.extend (a.missing ordinals)).Fits := h.fits.extend _
      have hfold := hfits.foldColumn_eq hinput htakes hlen (a.slots.slot_chunk_lt_extend ordinals)
      have hok := congrArg Prod.fst hfold
      rw [missing] at hok
      rw [hok] at heq
      exact Or.inr ⟨htakes, _, heq, size_foldColumn _ _ _⟩
    · rw [foldColumn_of_not_takes htakes] at heq
      exact Or.inl ⟨htakes, heq⟩

/-- A column is folded only if it is long enough, the chunks for the largest ordinal can be had and
its type is right, and this is also the order in which it is examined. -/
structure ChecksInOrder (l : ChunkLayout) (a : Accumulator k) (budget : Budget) (input : Column)
    (ordinals : List UInt32) : Prop where
  error_iff : (∃ err, (a.accumulate budget input ordinals).1 = .error err) ↔
    input.length < ordinals.length ∨
      (∃ err, (a.resize budget (l.chunksForOrdinals ordinals)).1 = .error err) ∨
      ¬ (input.datatype = .null ∨ input.datatype.SameVariant a.datatype)
  of_short : input.length < ordinals.length →
    a.accumulate budget input ordinals =
      (.error (.inputTooShort input.length ordinals.length), a, budget)
  of_exhausted : ordinals.length ≤ input.length →
    ∀ err, (a.resize budget (l.chunksForOrdinals ordinals)).1 = .error err →
      a.accumulate budget input ordinals = (.error err, a, budget)
  /-- The growth is kept. -/
  of_wrong : ordinals.length ≤ input.length →
    (a.resize budget (l.chunksForOrdinals ordinals)).1 = .ok () →
    ¬ (input.datatype = .null ∨ input.datatype.SameVariant a.datatype) →
    a.accumulate budget input ordinals = (.error (.wrongInput a.name input.datatype),
        (a.resize budget (l.chunksForOrdinals ordinals)).2) ∧
      a.GrewTo l (l.chunksForOrdinals ordinals) (a.accumulate budget input ordinals).2.1
  of_error : ∀ err, (a.accumulate budget input ordinals).1 = .error err → ∀ c < a.size,
    (a.accumulate budget input ordinals).2.1.valueChunk? c = a.valueChunk? c ∧
      (a.accumulate budget input ordinals).2.1.validityChunk? c = a.validityChunk? c
  of_ok : (a.accumulate budget input ordinals).1 = .ok () →
    (a.accumulate budget input ordinals).2.1.size = max a.size (l.chunksForOrdinals ordinals)

theorem UsesLayout.checks_accumulate (h : a.UsesLayout l) (hdatatype : k.accepts a.datatype = true)
    (budget : Budget) (hinput : input.WellFormed) (ordinals : List UInt32) :
    a.ChecksInOrder l budget input ordinals := by
  have htype := Kernel.takes_iff hdatatype input
  by_cases hshort : input.length < ordinals.length
  · have heq := a.accumulate_eq_resize budget input ordinals
    rw [if_pos hshort] at heq
    exact {
      error_iff := iff_of_true ⟨_, congrArg Prod.fst heq⟩ (Or.inl hshort)
      of_short := fun _ => heq
      of_exhausted := fun hlen => absurd hshort (Nat.not_lt.mpr hlen)
      of_wrong := fun hlen => absurd hshort (Nat.not_lt.mpr hlen)
      of_error := fun _ _ _ _ => by rw [heq]; exact ⟨rfl, rfl⟩
      of_ok := fun hok => absurd hok (by simp [heq]) }
  rcases h.accumulate_cases budget hinput (Nat.not_lt.mp hshort) with
    ⟨err, hgrow, heq⟩ | ⟨a', budget', hgrow, hgrew, ⟨hwrong, heq⟩ | ⟨htakes, a'', heq, hsize⟩⟩
  · exact {
      error_iff := iff_of_true ⟨err, by rw [heq]⟩ (Or.inr (Or.inl ⟨err, by rw [hgrow]⟩))
      of_short := fun hlt => absurd hlt hshort
      of_exhausted := fun _ err' herr' => by
        rw [hgrow] at herr'
        rw [heq, Except.error.inj herr']
      of_wrong := fun _ hok => absurd hok (by simp [hgrow])
      of_error := fun _ _ _ _ => by rw [heq]; exact ⟨rfl, rfl⟩
      of_ok := fun hok => absurd hok (by simp [heq]) }
  · exact {
      error_iff := iff_of_true ⟨_, by rw [heq]⟩ (Or.inr (Or.inr ((not_congr htype).mp hwrong)))
      of_short := fun hlt => absurd hlt hshort
      of_exhausted := fun _ _ herr => absurd herr (by simp [hgrow])
      of_wrong := fun _ _ _ => by
        rw [hgrow, heq]
        exact ⟨rfl, hgrew⟩
      of_error := fun _ _ c hc => by
        rw [heq]
        exact ⟨hgrew.old_values c hc, hgrew.old_words c hc⟩
      of_ok := fun hok => absurd hok (by simp [heq]) }
  · exact {
      error_iff := iff_of_false (by simp [heq]) (by
        rintro (hlt | ⟨err, herr⟩ | hwrong)
        · exact hshort hlt
        · exact absurd herr (by simp [hgrow])
        · exact hwrong (htype.mp htakes))
      of_short := fun hlt => absurd hlt hshort
      of_exhausted := fun _ _ herr => absurd herr (by simp [hgrow])
      of_wrong := fun _ _ hwrong => absurd (htype.mp htakes) hwrong
      of_error := fun _ herr => absurd herr (by simp [heq])
      of_ok := fun _ => by
        rw [heq]
        exact hsize.trans hgrew.size_eq }

/-! ### The type of an accumulator -/

@[simp] theorem datatype_foldColumn (a : Accumulator k) (input : Column) (ordinals : List UInt32) :
    (a.foldColumn input ordinals).2.datatype = a.datatype := by
  unfold foldColumn
  split
  case h_1 => rfl
  case h_2 =>
      split
      case h_1 => rfl
      case h_2 => split <;> rfl

/-- No call changes the type. -/
@[simp] theorem datatype_step (a : Accumulator k) (budget : Budget) (c : Call) :
    (a.step budget c).2.1.datatype = a.datatype := by
  cases c with
  | accumulate input ordinals =>
      rw [step, accumulate_eq]
      split
      case isTrue => rfl
      case isFalse =>
          rcases a.slots.ensureOrdinals budget ordinals with ⟨⟨err⟩ | ⟨⟨⟩⟩, slots, budget'⟩
          · rfl
          · exact datatype_foldColumn _ input ordinals
  | resize chunks => rfl
  | reset => rfl

end Accumulator

namespace AnyAccumulator

variable {l : ChunkLayout} {a : AnyAccumulator}

/-- The kernel of an accumulator is one for its type. -/
theorem Reachable.accepts_datatype (h : Reachable l a) :
    a.kernel.accepts a.accumulator.datatype = true := by
  have hcreate {k : Kernel} {e : Extremum} {t : DataType} {a : Accumulator k}
      (h : Accumulator.create k e t l = .ok a) : k.accepts a.datatype = true := by
    unfold Accumulator.create at h
    split at h
    case isTrue haccepts =>
        rw [← Except.ok.inj h]
        exact haccepts
    case isFalse => exact absurd h (by simp)
  induction h with
  | ofDataType h => exact hcreate (create_accumulator h)
  | ofKernel h => exact hcreate h
  | @step a _ budget c ih =>
      show a.kernel.accepts (a.accumulator.step budget c).2.1.datatype = true
      rw [Accumulator.datatype_step]
      exact ih

/-- Whatever state an accumulator is in, accumulating a column fails for the first of the three
reasons that applies, and for nothing else. -/
theorem Reachable.checksInOrder (h : Reachable l a) (budget : Budget) {input : Column}
    (hinput : input.WellFormed) (ordinals : List UInt32) :
    a.accumulator.ChecksInOrder l budget input ordinals :=
  h.usesLayout.checks_accumulate h.accepts_datatype budget hinput ordinals

/-- Integers for an accumulator of decimals, and an ordinal in the second chunk: the chunk has been
made before the column is refused, and it stays. -/
theorem Reachable.checksInOrder_of_wrong_column :
    ∃ a, create .max (.decimal128 ⟨38, 4⟩) ⟨5, by decide, by decide⟩ = .ok a ∧
      Column.WellFormed (.int32 (.ofValues #[7])) ∧
      (a.step (.ofLimit none) (.resize 1)).2.1.accumulator.size = 1 ∧
      ∃ a' budget', (a.step (.ofLimit none) (.resize 1)).2.1.accumulator.accumulate (.ofLimit none)
          (.int32 (.ofValues #[7])) [40] = (.error (.wrongInput "max_decimal128" .int32), a', budget') ∧
        a'.size = 2 := by
  obtain ⟨a, ha, hname, hdatatype, hsize, hgrow⟩ :
      ∃ a, create .max (.decimal128 ⟨38, 4⟩) ⟨5, by decide, by decide⟩ = .ok a ∧
        (a.step (.ofLimit none) (.resize 1)).2.1.accumulator.name = "max_decimal128" ∧
        (a.step (.ofLimit none) (.resize 1)).2.1.accumulator.datatype = .decimal128 ⟨38, 4⟩ ∧
        (a.step (.ofLimit none) (.resize 1)).2.1.accumulator.size = 1 ∧
        ((a.step (.ofLimit none) (.resize 1)).2.1.accumulator.resize (.ofLimit none)
          (ChunkLayout.chunksForOrdinals ⟨5, by decide, by decide⟩ [40])).1 = .ok () :=
    ⟨_, rfl, rfl, rfl, by decide, by decide⟩
  have hinput : Column.WellFormed (.int32 (.ofValues #[7])) := by decide
  have hreach := (ofDataType ha).step (.ofLimit none) (.resize 1)
  obtain ⟨heq, hgrew⟩ := (hreach.checksInOrder (.ofLimit none) hinput [40]).of_wrong (by decide)
    hgrow (by simp [hdatatype, Column.datatype, DataType.SameVariant])
  have hsize' := hgrew.size_eq
  rw [hname] at heq
  rw [heq, hsize] at hsize'
  exact ⟨a, ha, hinput, hsize, _, _, heq, hsize'.trans (by decide)⟩

end AnyAccumulator

end GroupedExtrema
