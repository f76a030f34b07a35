import GroupedExtrema.Proofs.AccumulateFailure
import GroupedExtrema.Proofs.Room

/-!
# Resetting

A reset keeps the chunks of an accumulator and nothing of what is in them. What it leaves is a new
accumulator that has been resized once, to as many chunks: it is the same in all of its parts, the
reservations included. So it does not matter how the chunks came to be there, what has been folded
into them, or which calls have failed.

The one thing that could tell them apart is the shape of the chunks. A region that is overwritten is
as long as it was, a new one as long as the kernel says; that these agree is the invariant of
reachable tables (`SlotTable.HasShape`).
-/

namespace GroupedExtrema

/-! ### Regions -/

/-- Overwriting a store makes it a store of new chunks. -/
theorem ChunkStore.WellFormed.fill_eq_extend {α : Type} {s : ChunkStore α} (h : s.WellFormed)
    (value : α) :
    s.fill value = (empty s.chunkLength s.elementBytes).extend s.size value := by
  have hchunks : s.chunks.map (fun c => c.map fun _ => value) =
      Array.replicate s.size (Array.replicate s.chunkLength value) := by
    rw [Array.eq_replicate_iff]
    refine ⟨Array.size_map, ?_⟩
    intro chunk hmem
    obtain ⟨c, hc, rfl⟩ := Array.mem_map.mp hmem
    rw [← h.size_of_mem c hc]
    exact Array.map_const'
  rw [ChunkStore.fill, hchunks, ChunkStore.extend, empty, Array.empty_append, Array.empty_append]
  exact congrArg (fun reservations => ChunkStore.mk _ _ _ reservations) h.reservations_eq

/-- The chunks of a store that had none. -/
theorem ChunkStore.chunk?_extend_empty {α : Type} (chunkLength elementBytes n : Nat) (value : α)
    (chunk : Nat) :
    ((empty chunkLength elementBytes).extend n value).chunk? chunk =
      if chunk < n then some (Array.replicate chunkLength value) else none := by
  have hsize : (empty chunkLength elementBytes : ChunkStore α).size = 0 := rfl
  rw [chunk?_extend, hsize, if_neg (Nat.not_lt_zero chunk), Nat.zero_add]
  rfl

/-- A table that is reset is a new table with as many chunks. -/
theorem SlotTable.HasShape.reset_eq_extend {α : Type} {l : ChunkLayout}
    {cellsPerChunk cellBytes : Nat} {identity : α} {t : SlotTable α}
    (h : HasShape l cellsPerChunk cellBytes identity t) :
    t.reset = (empty l cellsPerChunk cellBytes identity).extend t.size := by
  have hcells := h.wellFormed.cells.fill_eq_extend t.identity
  have hwords := h.wellFormed.words.fill_eq_extend 0
  rw [h.length_cells, h.bytes_cells, h.identity_eq] at hcells
  rw [h.words_length, h.bytes_words, h.wellFormed.size_words] at hwords
  rw [SlotTable.reset, h.layout_eq, h.identity_eq, hcells, ValidityMap.clear, hwords]
  rfl

/-! ### Accumulators -/

namespace Accumulator

variable {k : Kernel} {a f : Accumulator k} {l : ChunkLayout}

/-- An accumulator that is reset is a new one of its kind with as many chunks. -/
theorem UsesLayout.reset_eq_extend (h : a.UsesLayout l)
    (hf : create k a.extremum a.datatype l = .ok f) : a.reset = f.extend a.size := by
  have hslots := (SlotTable.Reachable.hasShape h).reset_eq_extend
  rw [eq_of_create hf, reset, hslots]
  rfl

/-- What a new accumulator pays for the chunks of another one of its kind is what that one holds. -/
theorem UsesLayout.grown_create (h : a.UsesLayout l)
    (hf : create k a.extremum a.datatype l = .ok f) (b : Budget) :
    Funded.grown (f, b) a.size = (a.reset, b.charge a.allocatedBytes) := by
  have hbytes : f.slots.chunkBytes = a.slots.chunkBytes := by
    rw [(SlotTable.Reachable.hasShape h).chunkBytes_eq, eq_of_create hf]
    rw [(SlotTable.hasShape_empty _ _ _ _).chunkBytes_eq]
  have hheld : a.allocatedBytes = a.size * a.slots.chunkBytes := h.wellFormed.allocatedBytes_eq
  rw [Funded.grown, size_create hf, Nat.sub_zero, hbytes, ← hheld, ← h.reset_eq_extend hf]

/-- A new accumulator gets as many chunks as another one has wherever their bytes are afforded. The
list of them is no obstacle, for the other one has it too. -/
theorem UsesLayout.hasRoom_create_iff (h : a.UsesLayout l)
    (hf : create k a.extremum a.datatype l = .ok f) (b : Budget) :
    Funded.HasRoom (f, b) a.size ↔ a.size = 0 ∨ b.Affords a.allocatedBytes := by
  have hlist : a.size * chunkEntryBytes ≤ maxAllocation := SlotTable.Reachable.size_mul_le h
  have hgrown := congrArg (fun s => s.2.reserved) (h.grown_create hf b)
  have hbytes : (a.size - f.slots.size) * f.slots.chunkBytes = a.allocatedBytes :=
    Nat.add_left_cancel hgrown
  have hsize : f.slots.size = 0 := size_create hf
  rw [Funded.HasRoom, SlotTable.HasRoom, hbytes, and_iff_left hlist, hsize, Nat.le_zero]

/-- After a reset the accumulator is what the second one, a new one, becomes when it is resized to
as many chunks. -/
structure ResetsTo (l : ChunkLayout) (a f : Accumulator k) : Prop where
  step_reset : ∀ b, a.step b .reset = (.ok (), a.reset, b)
  size_reset : a.reset.size = a.size
  allocatedBytes_reset : a.reset.allocatedBytes = a.allocatedBytes
  values : ∀ c, a.reset.valueChunk? c =
    if c < a.size then some (Array.replicate (k.cellsPerChunk l) (k.identity a.extremum)) else none
  words : ∀ c, a.reset.validityChunk? c =
    if c < a.size then some (Array.replicate l.wordsPerChunk 0) else none
  resize_ok_iff : ∀ b, (f.resize b a.size).1 = .ok () ↔ a.size = 0 ∨ b.Affords a.allocatedBytes
  resize_eq : ∀ b, (f.resize b a.size).1 = .ok () →
    f.resize b a.size = (.ok (), a.reset, b.charge a.allocatedBytes)
  /-- Whatever is called then, on either of them, has the same results, and leaves the same. -/
  history_eq : ∀ b, (f.resize b a.size).1 = .ok () → ∀ calls, ∃ records,
    a.history (b.charge a.allocatedBytes) (.reset :: calls) = (.reset, .ok ()) :: records ∧
      f.history b (.resize a.size :: calls) = (.resize a.size, .ok ()) :: records
  run_eq : ∀ b, (f.resize b a.size).1 = .ok () → ∀ calls,
    a.run (b.charge a.allocatedBytes) (.reset :: calls) = f.run b (.resize a.size :: calls)
  reset_reset : a.reset.reset = a.reset

theorem UsesLayout.resetsTo_create (h : a.UsesLayout l)
    (hf : create k a.extremum a.datatype l = .ok f) : a.ResetsTo l f := by
  have hreset : a.reset.UsesLayout l := SlotTable.Reachable.reset h
  have hsize : a.reset.size = a.size := a.slots.size_reset
  have hresize (b : Budget) (hok : (f.resize b a.size).1 = .ok ()) :
      f.resize b a.size = (.ok (), a.reset, b.charge a.allocatedBytes) := by
    have hroom := ((usesLayout_create hf).1.ensureChunks_ok_iff b a.size).mp hok
    rw [← h.grown_create hf]
    exact Funded.step_resize (s := (f, b)) (usesLayout_create hf).1 hroom
  exact {
    step_reset := fun _ => rfl
    size_reset := hsize
    allocatedBytes_reset := by rw [hreset.allocatedBytes_eq, hsize, h.allocatedBytes_eq]
    values := by
      intro c
      rw [h.reset_eq_extend hf, eq_of_create hf]
      exact ChunkStore.chunk?_extend_empty _ _ _ _ c
    words := by
      intro c
      rw [h.reset_eq_extend hf, eq_of_create hf]
      exact ChunkStore.chunk?_extend_empty _ _ _ _ c
    resize_ok_iff := fun b =>
      ((usesLayout_create hf).1.ensureChunks_ok_iff b a.size).trans (h.hasRoom_create_iff hf b)
    resize_eq := hresize
    history_eq := by
      intro b hok calls
      refine ⟨a.reset.history (b.charge a.allocatedBytes) calls, rfl, ?_⟩
      rw [history, Accumulator.step, hresize b hok]
    run_eq := by
      intro b hok calls
      rw [run, run, Accumulator.step, Accumulator.step, hresize b hok]
    reset_reset := by
      rw [hreset.reset_eq_extend hf, hsize, h.reset_eq_extend hf] }

end Accumulator

namespace AnyAccumulator

variable {l : ChunkLayout} {a : AnyAccumulator}

/-- Whatever state an accumulator is in, a reset makes it what a new accumulator of its kind is
after it has been resized to as many chunks. -/
theorem Reachable.resetsTo_fresh (h : Reachable l a) :
    ∃ f, Accumulator.create a.kernel a.accumulator.extremum a.accumulator.datatype l = .ok f ∧
      a.accumulator.ResetsTo l f := by
  obtain ⟨f, hf⟩ : ∃ f, Accumulator.create a.kernel a.accumulator.extremum
      a.accumulator.datatype l = .ok f := ⟨_, if_pos h.accepts_datatype⟩
  exact ⟨f, hf, h.usesLayout.resetsTo_create hf⟩

/-- A value in the second chunk, truth values refused after a third chunk has been made for them,
and a growth for which the budget has no bytes. A reset leaves three chunks as new ones. -/
theorem Reachable.resetsTo_fresh_of_failed_calls :
    ∃ a, create .max .int32 ⟨5, by decide, by decide⟩ = .ok a ∧
      ∃ a', a' = (((a.step (.ofLimit none) (.accumulate (.int32 (.ofValues #[7])) [40])).2.1.step
          (.ofLimit none) (.accumulate (.boolean (.ofValues ⟨1, #[1]⟩)) [70])).2.1.step
          ⟨some 100, 100⟩ (.resize 5)).2.1 ∧
        a'.accumulator.isValid? 40 = some true ∧
        ∃ f, Accumulator.create a'.kernel a'.accumulator.extremum a'.accumulator.datatype
            ⟨5, by decide, by decide⟩ = .ok f ∧
          f.resize (.ofLimit none) 3 = (.ok (), a'.accumulator.reset, ⟨none, 396⟩) := by
  obtain ⟨a, ha, a', ha', hvalid, hsize, hbytes⟩ :
      ∃ a, create .max .int32 ⟨5, by decide, by decide⟩ = .ok a ∧
        ∃ a', a' = (((a.step (.ofLimit none) (.accumulate (.int32 (.ofValues #[7])) [40])).2.1.step
            (.ofLimit none) (.accumulate (.boolean (.ofValues ⟨1, #[1]⟩)) [70])).2.1.step
            ⟨some 100, 100⟩ (.resize 5)).2.1 ∧
          a'.accumulator.isValid? 40 = some true ∧ a'.accumulator.size = 3 ∧
          a'.accumulator.allocatedBytes = 396 :=
    ⟨_, rfl, _, rfl, by decide, by decide, by decide⟩
  have hreach := (((ofDataType ha).step (.ofLimit none)
    (.accumulate (.int32 (.ofValues #[7])) [40])).step (.ofLimit none)
    (.accumulate (.boolean (.ofValues ⟨1, #[1]⟩)) [70])).step ⟨some 100, 100⟩ (.resize 5)
  rw [← ha'] at hreach
  obtain ⟨f, hf, hresets⟩ := hreach.resetsTo_fresh
  have haffords : (Budget.ofLimit none).Affords 396 := by
    unfold Budget.Affords
    decide
  rw [← hbytes] at haffords
  have heq := hresets.resize_eq (.ofLimit none)
    ((hresets.resize_ok_iff (.ofLimit none)).mpr (Or.inr haffords))
  rw [hsize, hbytes] at heq
  exact ⟨a, ha, a', ha', hvalid, f, hf, heq⟩

end AnyAccumulator

end GroupedExtrema
