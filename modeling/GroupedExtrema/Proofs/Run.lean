import GroupedExtrema.Proofs.Accumulate

/-!
# Runs of an accumulator

The invariant of an accumulator ties its table to a history: every slot that exists holds the values
gathered for its number, combined, and is valid if there is one, and no value has been gathered for
a slot that does not exist. A new accumulator meets it for the empty history, every call keeps it,
whether it succeeds or fails, and so a whole run does.

From the invariant everything follows that can be seen of an accumulator: the two regions and the
scalars.
-/

namespace GroupedExtrema.Accumulator

variable {k : Kernel} {e : Extremum} {l : ChunkLayout}

/-- The accumulator holds the values `V n` in slot `n`. -/
structure Holds (e : Extremum) (l : ChunkLayout) (a : Accumulator k) (V : Nat → List k.Value) :
    Prop where
  extremum_eq : a.extremum = e
  layout_eq : a.layout = l
  fits : Kernel.Fits e k a.slots
  slot?_eq : ∀ n, (l.slot n).chunk < a.size → k.slot? a.slots n = some (k.contents e (V n))
  eq_nil : ∀ n, a.size ≤ (l.slot n).chunk → V n = []

/-! ### One call -/

/-- A new accumulator holds nothing. -/
theorem holds_create {t : DataType} {a : Accumulator k} (h : create k e t l = .ok a) :
    a.Holds e l fun _ => [] := by
  rw [eq_of_create h]
  exact ⟨rfl, rfl, Kernel.fits_empty e k l, fun n hn => absurd hn (Nat.not_lt_zero _),
    fun _ _ => rfl⟩

variable {a : Accumulator k} {V : Nat → List k.Value}

theorem Holds.toFits (h : a.Holds e l V) : a.Fits := by
  rw [Accumulator.Fits, h.extremum_eq]
  exact h.fits

/-- Growing adds slots for which nothing has been gathered. -/
theorem Holds.extend (h : a.Holds e l V) (m : Nat) :
    Holds e l { a with slots := a.slots.extend m } V where
  extremum_eq := h.extremum_eq
  layout_eq := h.layout_eq
  fits := h.fits.extend m
  slot?_eq := by
    intro n hn
    have hlayout : a.slots.layout = l := h.layout_eq
    rw [size, SlotTable.size_extend] at hn
    show k.slot? (a.slots.extend m) n = _
    rw [h.fits.slot?_extend, hlayout]
    by_cases hold : (l.slot n).chunk < a.slots.size
    · rw [if_pos hold, h.slot?_eq n hold]
    · rw [if_neg hold, if_pos hn, h.eq_nil n (Nat.not_lt.mp hold)]
  eq_nil := by
    intro n hn
    rw [size, SlotTable.size_extend] at hn
    exact h.eq_nil n (Nat.le_trans (Nat.le_add_right _ m) hn)

/-- Folding rows adds to every slot the values under its number. -/
theorem Holds.folds (h : a.Holds e l V) {rows : List (Option k.Value)} {ordinals : List UInt32}
    {t : SlotTable k.Cell} (hfolds : Kernel.Folds e k rows ordinals a.slots t) :
    Holds e l { a with slots := t } fun n => V n ++ valuesUnder rows ordinals n where
  extremum_eq := h.extremum_eq
  layout_eq := hfolds.layout_eq.trans h.layout_eq
  fits := hfolds.fits
  slot?_eq := by
    intro n hn
    have hn : (l.slot n).chunk < a.size := Nat.lt_of_lt_of_eq hn hfolds.size_eq
    show k.slot? t n = _
    rw [hfolds.slot?_eq, h.slot?_eq n hn, Option.map_some, Kernel.contents_append]
  eq_nil := by
    intro n hn
    have hlayout : a.slots.layout = l := h.layout_eq
    have hn : a.size ≤ (l.slot n).chunk := Nat.le_trans (Nat.le_of_eq hfolds.size_eq.symm) hn
    rw [h.eq_nil n hn, List.nil_append]
    -- A value under `n` needs an ordinal `n`, whose slot would exist.
    refine valuesUnder_eq_nil fun o ho heq => ?_
    have hlt := hfolds.chunk_lt o ho
    rw [hlayout, heq] at hlt
    exact absurd hlt (Nat.not_lt.mpr hn)

/-- A reset leaves nothing gathered. -/
theorem Holds.reset (h : a.Holds e l V) : a.reset.Holds e l fun _ => [] where
  extremum_eq := h.extremum_eq
  layout_eq := h.layout_eq
  fits := h.fits.reset
  slot?_eq := by
    intro n hn
    have hn : (l.slot n).chunk < a.size := Nat.lt_of_lt_of_eq hn a.slots.size_reset
    show k.slot? a.slots.reset n = _
    rw [h.fits.slot?_reset, h.slot?_eq n hn, Option.map_some]
  eq_nil := fun _ _ => rfl

/-- Every call, successful or not, does to the table what it does to the history. -/
theorem Holds.step (h : a.Holds e l V) {c : Call} (hc : c.WellFormed) (budget : Budget) :
    (a.step budget c).2.1.Holds e l fun n =>
      gather k.entries n (V n) (c, (a.step budget c).1) := by
  have hextremum := h.extremum_eq
  cases c with
  | accumulate input ordinals =>
      show (a.accumulate budget input ordinals).2.1.Holds e l fun n =>
        gather k.entries n (V n) (_, (a.accumulate budget input ordinals).1)
      rcases h.toFits.accumulate_cases hc budget ordinals with
        ⟨err, heq⟩ | ⟨r, t, heq, ⟨⟨err, rfl⟩, rfl⟩ | ⟨rfl, -, hfolds⟩⟩
      · rw [heq]
        exact h
      · -- The type of the column was wrong, but the slots for its ordinals have been made.
        rw [heq]
        exact h.extend _
      · rw [heq]
        rw [hextremum] at hfolds
        exact (h.extend _).folds hfolds
  | resize chunks =>
      show (a.resize budget chunks).2.1.Holds e l V
      unfold resize
      rcases h.fits.wellFormed.ensureChunks_cases budget chunks with ⟨err, heq⟩ | heq
      · rw [heq]
        exact h
      · rw [heq]
        exact h.extend _
  | reset => exact h.reset

/-! ### Whole runs -/

/-- After any calls, the accumulator holds what its history gathers. -/
theorem Holds.run (h : a.Holds e l V) (budget : Budget) {calls : List Call}
    (hcalls : ∀ c ∈ calls, c.WellFormed) :
    (a.run budget calls).1.Holds e l fun n =>
      (a.history budget calls).foldl (gather k.entries n) (V n) := by
  induction calls generalizing a budget V with
  | nil => exact h
  | cons c cs ih =>
      have hstep := h.step (hcalls c List.mem_cons_self) budget
      exact ih hstep _ fun c' hc' => hcalls c' (List.mem_cons_of_mem c hc')

/-- A new accumulator that is run holds the values of its history. -/
theorem exists_create_holds_run (e : Extremum) (l : ChunkLayout) {t : DataType}
    (ht : k.accepts t = true) (budget : Budget) {calls : List Call}
    (hcalls : ∀ c ∈ calls, c.WellFormed) :
    ∃ a, create k e t l = .ok a ∧
      (a.run budget calls).1.Holds e l (gathered k.entries (a.history budget calls)) := by
  have hcreate : ∃ a, create k e t l = .ok a := by
    unfold create
    rw [if_pos ht]
    exact ⟨_, rfl⟩
  obtain ⟨a, ha⟩ := hcreate
  exact ⟨a, ha, (holds_create ha).run budget hcalls⟩

/-- An accumulator after any calls since it was made, together with the values that have been
gathered for its slots. Each call may find the budget in a different state. -/
inductive Reachable (e : Extremum) (l : ChunkLayout) :
    Accumulator k → (Nat → List k.Value) → Prop where
  /-- An accumulator as it is made. -/
  | create {t : DataType} {a : Accumulator k} (h : create k e t l = .ok a) :
      Reachable e l a fun _ => []
  /-- One more call, successful or not. -/
  | step {a : Accumulator k} {V : Nat → List k.Value} (h : Reachable e l a V) (budget : Budget)
      {c : Call} (hc : c.WellFormed) :
      Reachable e l (a.step budget c).2.1 fun n =>
        gather k.entries n (V n) (c, (a.step budget c).1)

theorem Reachable.holds (h : Reachable e l a V) : a.Holds e l V := by
  induction h with
  | create h => exact holds_create h
  | step _ budget hc ih => exact ih.step hc budget

/-! ### What can be seen -/

/-- The regions show a value and a validity for the slot at an offset of a chunk. -/
structure ShowsRaw (a : Accumulator k) (chunk offset : Nat) (v : k.Value) (valid : Bool) :
    Prop where
  value : ∃ cells cell, a.valueChunk? chunk = some cells ∧
    cells[k.cellIndex ⟨chunk, offset⟩]? = some cell ∧ k.readCell (offset &&& 31) cell = v
  validity : ∃ words word, a.validityChunk? chunk = some words ∧
    words[offset >>> 5]? = some word ∧ word.getLsbD (offset &&& 31) = valid

/-- The accumulator meets a specification, which relates the values `V n` of a slot to what the slot
holds: every slot of every chunk holds such a value and is valid exactly if there are values, and
the scalar of an ordinal is an error, null or that value. -/
structure Meets {β : Type} (l : ChunkLayout) (a : Accumulator k) (V : Nat → List β)
    (spec : List β → k.Value → Prop) : Prop where
  raw : ∀ chunk < a.size, ∀ offset < l.capacity, ∃ v,
    spec (V (chunk * l.capacity + offset)) v ∧
      a.ShowsRaw chunk offset v (decide (V (chunk * l.capacity + offset) ≠ []))
  scalar_error : ∀ o, (∃ err, a.scalar o = .error err) ↔ a.size ≤ (l.address o).chunk
  scalar_null : ∀ o, a.scalar o = .ok .null ↔ (l.address o).chunk < a.size ∧ V o.toNat = []
  scalar_value : ∀ o, (l.address o).chunk < a.size → V o.toNat ≠ [] → ∃ v,
    spec (V o.toNat) v ∧ a.ShowsRaw (l.address o).chunk (l.address o).offset v true ∧
      a.scalar o = .ok (k.toScalar v)

/-- The scalar of an ordinal of which the values are known. -/
theorem Meets.exists_scalar_eq {β : Type} {W : Nat → List β} {spec : List β → k.Value → Prop}
    (h : a.Meets l W spec) {o : UInt32} (ho : (l.address o).chunk < a.size) {vs : List β}
    (hvs : W o.toNat = vs) (hne : vs ≠ []) :
    ∃ v, spec vs v ∧ a.scalar o = .ok (k.toScalar v) := by
  subst hvs
  obtain ⟨v, hv, -, hscalar⟩ := h.scalar_value o ho hne
  exact ⟨v, hv, hscalar⟩

/-- A scalar that is a value is one of a slot with values, and what the specification asks for. -/
theorem Meets.spec_of_scalar {β : Type} {W : Nat → List β} {spec : List β → k.Value → Prop}
    (h : a.Meets l W spec) {o : UInt32} {v : k.Value} (hscalar : a.scalar o = .ok (k.toScalar v)) :
    W o.toNat ≠ [] ∧ spec (W o.toNat) v := by
  have hchunk : (l.address o).chunk < a.size := by
    refine Nat.not_le.mp fun hle => ?_
    obtain ⟨err, herr⟩ := (h.scalar_error o).mpr hle
    rw [hscalar] at herr
    exact absurd herr (by simp)
  have hne : W o.toNat ≠ [] := by
    intro hnil
    have hnull := (h.scalar_null o).mpr ⟨hchunk, hnil⟩
    rw [hscalar] at hnull
    exact k.toScalar_ne_null v (Except.ok.inj hnull)
  obtain ⟨w, hw, heq⟩ := h.exists_scalar_eq hchunk rfl hne
  rw [hscalar] at heq
  obtain rfl := k.toScalar_injective (Except.ok.inj heq)
  exact ⟨hne, hw⟩

/-- A slot that exists shows what it holds. -/
theorem Holds.showsRaw (h : a.Holds e l V) {n : Nat} (hn : (l.slot n).chunk < a.size) :
    a.ShowsRaw (l.slot n).chunk (l.slot n).offset (k.contents e (V n)).1 (decide (V n ≠ [])) := by
  have hlayout : a.slots.layout = l := h.layout_eq
  have hslot := h.slot?_eq n hn
  rw [Kernel.contents_eq, Kernel.slot?_eq_some_iff, hlayout] at hslot
  obtain ⟨⟨cell, hcell, hvalue⟩, word, hword, hvalid⟩ := hslot
  rw [ChunkStore.get?_eq_bind] at hcell hword
  obtain ⟨cells, hcells, hcell⟩ := Option.bind_eq_some_iff.mp hcell
  obtain ⟨words, hwords, hword⟩ := Option.bind_eq_some_iff.mp hword
  rw [Kernel.contents_eq]
  exact ⟨⟨cells, cell, hcells, hcell, hvalue⟩, words, word, hwords, hword, hvalid⟩

/-- So do all offsets of all chunks. -/
theorem Holds.showsRaw_at (h : a.Holds e l V) {chunk offset : Nat} (hchunk : chunk < a.size)
    (hoffset : offset < l.capacity) :
    a.ShowsRaw chunk offset (k.contents e (V (chunk * l.capacity + offset))).1
      (decide (V (chunk * l.capacity + offset) ≠ [])) := by
  have hslot := l.slot_mul_add chunk hoffset
  have hraw := h.showsRaw (n := chunk * l.capacity + offset) (by rw [hslot]; exact hchunk)
  rwa [hslot] at hraw

/-- The scalar of an ordinal is read off the values of its slot. -/
theorem Holds.scalar_eq (h : a.Holds e l V) (o : UInt32) :
    a.scalar o =
      if (l.slot o.toNat).chunk < a.size then
        if V o.toNat = [] then .ok .null else .ok (k.toScalar (k.contents e (V o.toNat)).1)
      else .error (.unallocated o (l.slot o.toNat).chunk a.size) := by
  have hlayout : a.slots.layout = l := h.layout_eq
  unfold Accumulator.scalar SlotTable.checkAllocated Accumulator.isValid? SlotTable.isValid?
    Accumulator.layout
  simp only [ChunkLayout.address_eq_slot, hlayout]
  by_cases hn : (l.slot o.toNat).chunk < a.size
  · have hslot := h.slot?_eq o.toNat hn
    rw [Kernel.contents_eq, Kernel.slot?_eq_some_iff, hlayout] at hslot
    obtain ⟨⟨cell, hcell, hvalue⟩, word, hword, hvalid⟩ := hslot
    have hn' : (l.slot o.toNat).chunk < a.slots.size := hn
    simp only [if_pos hn', if_pos hn, ValidityMap.isValid?, hword, Option.map_some, hvalid]
    by_cases hnil : V o.toNat = []
    · simp [hnil]
    · have hvalid : decide (V o.toNat ≠ []) = true := decide_eq_true hnil
      simp only [hvalid, hcell, hvalue, Kernel.contents_eq, if_neg hnil]
  · have hn' : ¬ (l.slot o.toNat).chunk < a.slots.size := hn
    simp only [if_neg hn', if_neg hn]
    rfl

/-- If combining its values gives what the specification asks of a slot, the accumulator meets it.
The values may be given in another form than the one in which the kernel folds them. -/
theorem Holds.meets {β : Type} {W : Nat → List β} {f : β → k.Value}
    (h : a.Holds e l fun n => (W n).map f) {spec : List β → k.Value → Prop}
    (hspec : ∀ vs, spec vs (k.contents e (vs.map f)).1) : a.Meets l W spec where
  raw := by
    intro chunk hchunk offset hoffset
    have hraw := h.showsRaw_at hchunk hoffset
    simp only [ne_eq, List.map_eq_nil_iff] at hraw
    exact ⟨_, hspec _, hraw⟩
  scalar_error := by
    intro o
    rw [h.scalar_eq, ChunkLayout.address_eq_slot]
    by_cases hn : (l.slot o.toNat).chunk < a.size
    · rw [if_pos hn, iff_false_intro (Nat.not_le.mpr hn), iff_false]
      split <;> simp
    · rw [if_neg hn]
      exact iff_of_true ⟨_, rfl⟩ (Nat.not_lt.mp hn)
  scalar_null := by
    intro o
    rw [h.scalar_eq, ChunkLayout.address_eq_slot]
    by_cases hn : (l.slot o.toNat).chunk < a.size
    · by_cases hnil : W o.toNat = []
      · simp [hn, hnil]
      · simp [hn, hnil, k.toScalar_ne_null]
    · simp [hn]
  scalar_value := by
    intro o hn hne
    rw [ChunkLayout.address_eq_slot] at hn ⊢
    have hraw := h.showsRaw hn
    rw [decide_eq_true (by simpa using hne)] at hraw
    refine ⟨_, hspec _, hraw, ?_⟩
    rw [h.scalar_eq, if_pos hn, if_neg (by simpa using hne)]

/-- A new accumulator that is run meets every specification that holds of values combined. -/
theorem exists_create_meets_run_map {β : Type} (e : Extremum) (l : ChunkLayout) {t : DataType}
    (ht : k.accepts t = true) (budget : Budget) {calls : List Call}
    (hcalls : ∀ c ∈ calls, c.WellFormed) {view : Column → List (Option β)} {f : β → k.Value}
    (hview : ∀ c, k.entries c = (view c).map (Option.map f)) {spec : List β → k.Value → Prop}
    (hspec : ∀ vs, spec vs (k.contents e (vs.map f)).1) :
    ∃ a, create k e t l = .ok a ∧
      (a.run budget calls).1.Meets l (gathered view (a.history budget calls)) spec := by
  obtain ⟨a, ha, hrun⟩ := exists_create_holds_run e l ht budget hcalls
  have hgathered : gathered k.entries (a.history budget calls) =
      fun n => (gathered view (a.history budget calls) n).map f :=
    funext (gathered_map hview (a.history budget calls))
  rw [hgathered] at hrun
  exact ⟨a, ha, hrun.meets hspec⟩

/-- The same for values in the form in which the kernel folds them. -/
theorem exists_create_meets_run (e : Extremum) (l : ChunkLayout) {t : DataType}
    (ht : k.accepts t = true) (budget : Budget) {calls : List Call}
    (hcalls : ∀ c ∈ calls, c.WellFormed) {spec : List k.Value → k.Value → Prop}
    (hspec : ∀ vs, spec vs (k.contents e vs).1) :
    ∃ a, create k e t l = .ok a ∧
      (a.run budget calls).1.Meets l (gathered k.entries (a.history budget calls)) spec := by
  refine exists_create_meets_run_map e l ht budget hcalls (f := id) (fun c => by simp) fun vs => ?_
  rw [List.map_id]
  exact hspec vs

end GroupedExtrema.Accumulator
