import GroupedExtrema.Proofs.Accumulate
import GroupedExtrema.Proofs.Regions

/-!
# Memory accounting

Every operation on an accumulator, however it ends, charges the budget with exactly the bytes that
the accumulator has come to hold: growing a table pays for its new chunks or changes nothing, and
folding rows and resetting change no size. Giving back what an accumulator holds undoes all of its
charges.

None of this depends on what is in the columns. A row that could not be read would end a call as any
other failure does, with the growth before it paid for.
-/

namespace GroupedExtrema

/-! ### Paying for what is held -/

namespace Budget

/-- Between the two budgets an owner has come from holding `held` bytes to holding `held'`. It has
been charged for them, and the ceiling allowed it. -/
def PaysFor (b b' : Budget) (held held' : Nat) : Prop :=
  ∃ d, held' = held + d ∧ b' = b.charge d ∧ (d = 0 ∨ b.Affords d)

namespace PaysFor

variable {b b' b'' : Budget} {m m' m'' : Nat}

theorem refl (b : Budget) (m : Nat) : b.PaysFor b m m := ⟨0, rfl, rfl, Or.inl rfl⟩

theorem trans (h : b.PaysFor b' m m') (h' : b'.PaysFor b'' m' m'') : b.PaysFor b'' m m'' := by
  obtain ⟨d, rfl, rfl, hd⟩ := h
  obtain ⟨d', rfl, rfl, hd'⟩ := h'
  refine ⟨d + d', Nat.add_assoc m d d', b.charge_charge d d', ?_⟩
  rcases hd' with rfl | haffords
  · exact hd
  · exact Or.inr (affords_charge.mp haffords)

/-- What other owners hold stays the same. -/
theorem add_right (h : b.PaysFor b' m m') (n : Nat) : b.PaysFor b' (m + n) (m' + n) := by
  obtain ⟨d, rfl, hb, hd⟩ := h
  exact ⟨d, Nat.add_right_comm m d n, hb, hd⟩

@[inherit_doc add_right]
theorem add_left (h : b.PaysFor b' m m') (n : Nat) : b.PaysFor b' (n + m) (n + m') := by
  rw [Nat.add_comm n m, Nat.add_comm n m']
  exact h.add_right n

theorem reserved_le (h : b.PaysFor b' m m') : b.reserved ≤ b'.reserved := by
  obtain ⟨d, -, rfl, -⟩ := h
  exact Nat.le_add_right b.reserved d

end PaysFor

end Budget

/-! ### Tables -/

namespace ChunkStore

variable {α : Type} {s : ChunkStore α}

/-- A store holds the bytes of its chunks. -/
theorem WellFormed.allocatedBytes_eq (h : s.WellFormed) :
    s.allocatedBytes = s.size * s.chunkBytes := by
  rw [allocatedBytes, h.reservations_eq, Array.toList_replicate, List.map_replicate,
    List.sum_replicate_nat]

/-- Giving back what a store holds undoes its charge. -/
theorem WellFormed.free_charge (h : s.WellFormed) (b : Budget) :
    s.free (b.charge s.allocatedBytes) = b := by
  rw [h.allocatedBytes_eq, free, h.reservations_eq, Array.toList_replicate]
  exact b.releaseAll_replicate s.size s.chunkBytes

end ChunkStore

namespace SlotTable

variable {α : Type} {l : ChunkLayout} {cellsPerChunk cellBytes : Nat} {identity : α}
  {t : SlotTable α}

theorem WellFormed.allocatedBytes_eq (h : t.WellFormed) :
    t.allocatedBytes = t.size * t.chunkBytes := by
  have hwords := h.words.allocatedBytes_eq
  rw [h.size_words] at hwords
  rw [chunkBytes, Nat.mul_add, ← hwords]
  exact congrArg (· + t.validity.words.allocatedBytes) h.cells.allocatedBytes_eq

/-- Giving back what a table holds undoes its charge. -/
theorem WellFormed.free_charge (h : t.WellFormed) (b : Budget) :
    t.free (b.charge t.allocatedBytes) = b := by
  rw [allocatedBytes, Nat.add_comm, ← Budget.charge_charge, free, h.cells.free_charge]
  exact h.words.free_charge b

/-- Growing pays for the chunks it adds. -/
theorem WellFormed.paysFor_ensureChunks (h : t.WellFormed) (budget : Budget) (chunks : Nat) :
    budget.PaysFor (t.ensureChunks budget chunks).2.2 t.allocatedBytes
      (t.ensureChunks budget chunks).2.1.allocatedBytes := by
  have hok := h.ensureChunks_ok_iff budget chunks
  rcases h.ensureChunks_cases budget chunks with ⟨e, heq⟩ | heq
  · rw [heq]
    exact .refl budget t.allocatedBytes
  · rw [heq] at hok ⊢
    refine ⟨(chunks - t.size) * t.chunkBytes, ?_, rfl, ?_⟩
    · rw [(h.extend _).allocatedBytes_eq, size_extend, h.allocatedBytes_eq, ← Nat.add_mul]
      rfl
    · rcases hok.mp rfl with hle | ⟨haffords, -⟩
      · exact Or.inl (by rw [Nat.sub_eq_zero_of_le hle, Nat.zero_mul])
      · exact Or.inr haffords

/-- Tables with one shape and as many chunks hold as many bytes. -/
theorem HasShape.allocatedBytes_congr {t' : SlotTable α}
    (h : HasShape l cellsPerChunk cellBytes identity t)
    (h' : HasShape l cellsPerChunk cellBytes identity t') (hsize : t'.size = t.size) :
    t'.allocatedBytes = t.allocatedBytes := by
  rw [h.wellFormed.allocatedBytes_eq, h'.wellFormed.allocatedBytes_eq, h.chunkBytes_eq,
    h'.chunkBytes_eq, hsize]

end SlotTable

/-! ### Accumulators -/

namespace Kernel

/-- The table is one that an accumulator of the kernel for an extremum can come to have. -/
abbrev Reaches (e : Extremum) (k : Kernel) (l : ChunkLayout) (t : SlotTable k.Cell) : Prop :=
  SlotTable.Reachable l (k.cellsPerChunk l) k.cellBytes (k.identity e) t

variable {e : Extremum} {k : Kernel} {l : ChunkLayout} {t t' : SlotTable k.Cell}

theorem Reaches.foldRow (h : Reaches e k l t) {o : UInt32} {row : k.Value × Bool}
    (hrow : k.foldRow e t o row = some t') : Reaches e k l t' := by
  obtain ⟨cells, validity, hcells, hvalidity, rfl⟩ := exists_of_foldRow hrow
  exact (h.modify hcells).mark hvalidity

theorem Reaches.foldRows (h : Reaches e k l t) {read : Nat → Option (k.Value × Bool)} {i : Nat}
    {ordinals : List UInt32} (hrows : k.foldRows e read i ordinals t = some t') :
    Reaches e k l t' := by
  induction ordinals generalizing i t with
  | nil => exact Option.some.inj hrows ▸ h
  | cons o os ih =>
      unfold Kernel.foldRows at hrows
      split at hrows
      case h_1 => exact absurd hrows (by simp)
      case h_2 row _ =>
          split at hrows
          case h_1 => exact absurd hrows (by simp)
          case h_2 t'' hrow => exact ih (h.foldRow hrow) hrows

end Kernel

/-- Bytes of one chunk of values: a cell for every slot, or for truth values a word for every 32. -/
def Kernel.valueChunkBytes (k : Kernel) (l : ChunkLayout) : Nat :=
  if k = boolean then 4 * l.wordsPerChunk else l.capacity * k.cellBytes

theorem Kernel.valueChunkBytes_eq (k : Kernel) (l : ChunkLayout) :
    k.valueChunkBytes l = k.cellsPerChunk l * k.cellBytes := by
  cases k with
  | boolean => exact Nat.mul_comm 4 l.wordsPerChunk
  | _ => rfl

namespace Accumulator

variable {k : Kernel} {a : Accumulator k} {l : ChunkLayout}

/-- The slots are divided as a layout says, and grow and change only as accumulators do. -/
def UsesLayout (l : ChunkLayout) (a : Accumulator k) : Prop := Kernel.Reaches a.extremum k l a.slots

theorem usesLayout_create {e : Extremum} {t : DataType} (h : create k e t l = .ok a) :
    a.UsesLayout l ∧ a.allocatedBytes = 0 := by
  rw [eq_of_create h]
  exact ⟨.empty, rfl⟩

/-- What an accumulator holds is what its chunks take. -/
theorem UsesLayout.allocatedBytes_eq (h : a.UsesLayout l) :
    a.allocatedBytes = a.size * (k.valueChunkBytes l + 4 * l.wordsPerChunk) := by
  rw [k.valueChunkBytes_eq, ← (SlotTable.Reachable.hasShape h).chunkBytes_eq]
  exact (SlotTable.Reachable.hasShape h).wellFormed.allocatedBytes_eq

theorem UsesLayout.free_charge (h : a.UsesLayout l) (b : Budget) :
    a.free (b.charge a.allocatedBytes) = b :=
  (SlotTable.Reachable.hasShape h).wellFormed.free_charge b

/-- The second accumulator is the first one after an operation that has paid for its growth. -/
structure StepsTo (l : ChunkLayout) (a a' : Accumulator k) (b b' : Budget) : Prop where
  usesLayout : a'.UsesLayout l
  paysFor : b.PaysFor b' a.allocatedBytes a'.allocatedBytes

theorem UsesLayout.foldColumn (h : a.UsesLayout l) (input : Column) (ordinals : List UInt32) :
    (a.foldColumn input ordinals).2.UsesLayout l := by
  unfold Accumulator.foldColumn
  split
  case h_1 => exact h
  case h_2 =>
      split
      case h_1 => exact h
      case h_2 =>
          split
          case h_1 => exact h
          case h_2 slots hrows => exact Kernel.Reaches.foldRows h hrows

/-- An accumulated column, whatever it is, pays for the slots of its ordinals. -/
theorem UsesLayout.accumulate (h : a.UsesLayout l) (budget : Budget) (input : Column)
    (ordinals : List UInt32) :
    StepsTo l a (a.accumulate budget input ordinals).2.1 budget
      (a.accumulate budget input ordinals).2.2 := by
  have hgrown := h.ensureOrdinals budget ordinals
  have hpays := (SlotTable.Reachable.hasShape h).wellFormed.paysFor_ensureChunks budget
    (a.slots.layout.chunksForOrdinals ordinals)
  rw [← SlotTable.ensureOrdinals_eq] at hpays
  rw [accumulate_eq]
  split
  case isTrue => exact ⟨h, .refl budget a.allocatedBytes⟩
  case isFalse =>
      rcases hgrow : a.slots.ensureOrdinals budget ordinals with ⟨⟨err⟩ | ⟨⟨⟩⟩, slots, budget'⟩
      · rw [hgrow] at hgrown hpays
        exact ⟨hgrown, hpays⟩
      · rw [hgrow] at hgrown hpays
        have hlayout : UsesLayout l { a with slots := slots } := hgrown
        have hfolded := hlayout.foldColumn input ordinals
        refine ⟨hfolded, ?_⟩
        show budget.PaysFor budget' a.allocatedBytes
          (Accumulator.foldColumn _ input ordinals).2.allocatedBytes
        rw [hfolded.allocatedBytes_eq, size_foldColumn, ← hlayout.allocatedBytes_eq]
        exact hpays

/-- Every operation pays for its growth, whether it succeeds or not. -/
theorem UsesLayout.step (h : a.UsesLayout l) (budget : Budget) (c : Call) :
    StepsTo l a (a.step budget c).2.1 budget (a.step budget c).2.2 := by
  cases c with
  | accumulate input ordinals => exact h.accumulate budget input ordinals
  | resize chunks =>
      exact ⟨h.ensureChunks budget chunks,
        (SlotTable.Reachable.hasShape h).wellFormed.paysFor_ensureChunks budget chunks⟩
  | reset =>
      have hreset : a.reset.UsesLayout l := SlotTable.Reachable.reset h
      have hbytes : a.reset.allocatedBytes = a.allocatedBytes :=
        (SlotTable.Reachable.hasShape h).allocatedBytes_congr
          (SlotTable.Reachable.hasShape hreset) a.slots.size_reset
      refine ⟨hreset, ?_⟩
      show budget.PaysFor budget a.allocatedBytes a.reset.allocatedBytes
      rw [hbytes]
      exact .refl budget a.allocatedBytes

end Accumulator

namespace AnyAccumulator

variable {e : Extremum} {t : DataType} {l : ChunkLayout} {a : AnyAccumulator}

/-- The accumulator for a data type is one of the kernel that folds the data type. -/
theorem create_accumulator (h : create e t l = .ok a) :
    Accumulator.create a.kernel e t l = .ok a.accumulator := by
  unfold create at h
  split at h
  case h_1 => exact absurd h (by simp)
  case h_2 =>
      split at h
      case h_1 ha =>
          rw [← Except.ok.inj h]
          exact ha
      case h_2 => exact absurd h (by simp)

theorem usesLayout_create (h : create e t l = .ok a) :
    a.accumulator.UsesLayout l ∧ a.accumulator.allocatedBytes = 0 :=
  Accumulator.usesLayout_create (create_accumulator h)

end AnyAccumulator

end GroupedExtrema
