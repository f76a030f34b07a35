import GroupedExtrema.Proofs.Room
import GroupedExtrema.Proofs.SetAccounting

/-!
# When a set can be made

Making a set makes one accumulator after the other, and each of them reserves its chunks one by one,
first those of its values and then those of its validity. All that decides is the running total: the
set can be made exactly if every aggregate has a kernel and the bytes of all chunks of all aggregates
are within the limit.

If it cannot, the error is that of one reservation, the first one that the limit does not allow
(`Budget.Refuses`). It belongs to the first aggregate whose own bytes no longer fit, unless one
without a kernel comes before it.
-/

namespace GroupedExtrema

/-! ### Reservations one after the other -/

namespace Budget

/-- Of some reservations that are made one after the other, the first one for which there is no room
has the error. -/
def Refuses (b : Budget) (requests : List Nat) (err : Error) : Prop :=
  ∃ before bytes after, requests = before ++ bytes :: after ∧ b.Affords before.sum ∧
    ¬ b.Affords (before.sum + bytes) ∧ err = .overBudget bytes (b.reserved + before.sum) b.limit

variable {b : Budget} {requests : List Nat} {err : Error}

/-- The first reservation is refused. -/
theorem refuses_of_reserve (hb : b.Affords 0) {bytes : Nat} (h : b.reserve bytes = .error err)
    (after : List Nat) : b.Refuses (bytes :: after) err := by
  unfold reserve at h
  split at h
  case isTrue => exact absurd h (by simp)
  case isFalse hfull =>
      refine ⟨[], bytes, after, rfl, hb, ?_, (Except.error.inj h).symm⟩
      rwa [List.sum_nil, Nat.zero_add]

/-- One of the reservations is refused that come after some that are granted. -/
theorem Refuses.append_left {granted : List Nat} (h : (b.charge granted.sum).Refuses requests err) :
    b.Refuses (granted ++ requests) err := by
  obtain ⟨before, bytes, after, rfl, haffords, hfull, rfl⟩ := h
  rw [affords_charge] at haffords hfull
  refine ⟨granted ++ before, bytes, after, (List.append_assoc _ _ _).symm, ?_, ?_, ?_⟩
  · rwa [List.sum_append_nat]
  · rwa [List.sum_append_nat, Nat.add_assoc]
  · rw [List.sum_append_nat, ← Nat.add_assoc]
    rfl

theorem Refuses.cons {bytes : Nat} (h : (b.charge bytes).Refuses requests err) :
    b.Refuses (bytes :: requests) err := by
  have hsum : [bytes].sum = bytes := by simp
  rw [← hsum] at h
  exact h.append_left

/-- Reservations that come after the refused one are not made. -/
theorem Refuses.append_right (h : b.Refuses requests err) (rest : List Nat) :
    b.Refuses (requests ++ rest) err := by
  obtain ⟨before, bytes, after, rfl, hrefused⟩ := h
  exact ⟨before, bytes, after ++ rest, List.append_assoc _ _ _, hrefused⟩

end Budget

/-! ### Chunks one after the other -/

namespace ChunkStore

variable {α : Type} {s : ChunkStore α} {b : Budget} {fill : α} {err : Error}

theorem reserve_of_addChunk (hbytes : s.chunkBytes ≤ maxAllocation)
    (h : (s.addChunk b fill).1 = .error err) : b.reserve s.chunkBytes = .error err := by
  unfold addChunk at h
  split at h
  case h_1 e he => rw [he, Except.error.inj h]
  case h_2 =>
      rw [if_pos hbytes] at h
      exact absurd h (by simp)

/-- Chunks fail to be added because the reservation of one of them is refused. -/
theorem refuses_of_addChunks (hbytes : s.chunkBytes ≤ maxAllocation) (hb : b.Affords 0) {n : Nat}
    (h : (addChunks n s b fill).1 = .error err) :
    b.Refuses (List.replicate n s.chunkBytes) err := by
  induction n generalizing s b with
  | zero => exact absurd h (by simp [addChunks])
  | succ n ih =>
      rw [addChunks] at h
      by_cases hone : s.Admits b 1
      · have haffords := hone.affords
        rw [Nat.one_mul] at haffords
        rw [addChunk_of_admits hone] at h
        have hrest := ih (s := s.extend 1 fill) hbytes (Budget.affords_charge.mpr haffords) h
        rw [List.replicate_succ]
        exact Budget.Refuses.cons hrest
      · obtain ⟨e, he⟩ := addChunk_of_not_admits hone fill
        rw [he] at h
        rw [← Except.error.inj h]
        have herr : (s.addChunk b fill).1 = .error e := congrArg Prod.fst he
        exact Budget.refuses_of_reserve hb (reserve_of_addChunk hbytes herr) _

/-- A store whose list of chunks is small enough fails to grow because the reservation of one of the
missing chunks is refused. -/
theorem refuses_of_grow (hbytes : s.chunkBytes ≤ maxAllocation) (hb : b.Affords 0) {chunks : Nat}
    (hlist : chunks * chunkEntryBytes ≤ maxAllocation)
    (h : (s.grow b chunks fill).1 = .error err) :
    b.Refuses (List.replicate (chunks - s.size) s.chunkBytes) err := by
  unfold grow at h
  split at h
  case isTrue => exact absurd h (by simp)
  case isFalse =>
      rw [if_neg (Nat.not_lt.mpr hlist)] at h
      refine refuses_of_addChunks hbytes hb (?_ : (addChunks _ s b fill).1 = .error err)
      split at h
      case h_1 => exact absurd h (by simp)
      case h_2 e grown b' heq =>
          rw [heq]
          exact congrArg Except.error (Except.error.inj h)

end ChunkStore

/-- A table fails to grow because a reservation is refused, of the chunks of values or of those of
validity. -/
theorem SlotTable.WellFormed.refuses_of_ensureChunks {α : Type} {t : SlotTable α}
    (h : t.WellFormed) (hcells : t.cells.chunkBytes ≤ maxAllocation)
    (hwords : t.validity.words.chunkBytes ≤ maxAllocation) {b : Budget} (hb : b.Affords 0)
    {chunks : Nat} (hlist : chunks * chunkEntryBytes ≤ maxAllocation) {err : Error}
    (herr : (t.ensureChunks b chunks).1 = .error err) :
    b.Refuses (List.replicate (chunks - t.size) t.cells.chunkBytes ++
      List.replicate (chunks - t.size) t.validity.words.chunkBytes) err := by
  unfold ensureChunks at herr
  split at herr
  case isTrue => exact absurd herr (by simp)
  case isFalse hlt =>
      split at herr
      case h_1 e cells b' hgrow =>
          rw [← Except.error.inj herr]
          exact (ChunkStore.refuses_of_grow hcells hb hlist
            (congrArg Prod.fst hgrow)).append_right _
      case h_2 added cells b' hgrow =>
          have hgrown : ∃ added, (t.cells.grow b chunks t.identity).1 = .ok added :=
            ⟨added, congrArg Prod.fst hgrow⟩
          have hbudget := ChunkStore.budget_of_grow_ok hgrown
          have hadmits := ((ChunkStore.grow_ok_iff (Nat.not_le.mp hlt) b t.identity).mp hgrown).2
          rw [hgrow] at hbudget
          have hbudget : b' = b.charge ((chunks - t.size) * t.cells.chunkBytes) := hbudget
          subst hbudget
          split at herr
          case h_1 e' validity b'' hgrow' =>
              have hwordsGrow : (t.validity.words.grow
                  (b.charge ((chunks - t.size) * t.cells.chunkBytes)) chunks 0).1 = .error e' :=
                congrArg Prod.fst hgrow'
              have hrefused := ChunkStore.refuses_of_grow hwords
                (Budget.affords_charge.mpr hadmits.affords) hlist hwordsGrow
              rw [h.size_words] at hrefused
              rw [← Except.error.inj herr]
              refine Budget.Refuses.append_left ?_
              rwa [List.sum_replicate_nat]
          case h_2 => exact absurd herr (by simp)

/-! ### What aggregates take -/

namespace AggregateSpec

variable {l : ChunkLayout} {chunks : Nat} {spec : AggregateSpec} {k : Kernel}

/-- Bytes of one chunk of values and of one chunk of validity. An aggregate without a kernel has
neither. -/
def regionBytes (l : ChunkLayout) (spec : AggregateSpec) : List Nat :=
  match Kernel.ofDataType? spec.datatype with
  | some k => [k.valueChunkBytes l, 4 * l.wordsPerChunk]
  | none => []

/-- Bytes that the aggregate takes for each chunk. -/
def chunkBytes (l : ChunkLayout) (spec : AggregateSpec) : Nat := (spec.regionBytes l).sum

/-- The reservations for so many chunks, in the order in which they are made. -/
def requests (l : ChunkLayout) (chunks : Nat) (spec : AggregateSpec) : List Nat :=
  (spec.regionBytes l).flatMap (List.replicate chunks)

/-- Bytes that so many chunks of all of the aggregates take. -/
def totalBytes (l : ChunkLayout) (chunks : Nat) (specs : List AggregateSpec) : Nat :=
  chunks * (specs.map (chunkBytes l)).sum

theorem totalBytes_nil (l : ChunkLayout) (chunks : Nat) : totalBytes l chunks [] = 0 := rfl

theorem totalBytes_cons (l : ChunkLayout) (chunks : Nat) (spec : AggregateSpec)
    (specs : List AggregateSpec) :
    totalBytes l chunks (spec :: specs) =
      chunks * spec.chunkBytes l + totalBytes l chunks specs := by
  rw [totalBytes, List.map_cons, List.sum_cons, Nat.mul_add]
  rfl

theorem chunkBytes_eq (hk : Kernel.ofDataType? spec.datatype = some k) :
    spec.chunkBytes l = k.valueChunkBytes l + 4 * l.wordsPerChunk := by
  simp [chunkBytes, regionBytes, hk]

theorem requests_eq (hk : Kernel.ofDataType? spec.datatype = some k) :
    spec.requests l chunks = List.replicate chunks (k.valueChunkBytes l) ++
      List.replicate chunks (4 * l.wordsPerChunk) := by
  simp [requests, regionBytes, hk]

/-- All data types but that of null columns have a kernel. -/
theorem exists_kernel (h : spec.datatype ≠ .null) :
    ∃ k, Kernel.ofDataType? spec.datatype = some k := by
  cases ht : spec.datatype with
  | null => exact absurd ht h
  | _ => exact ⟨_, rfl⟩

/-- The accumulator of the aggregate as it is made, without chunks. -/
def newAccumulator (l : ChunkLayout) (spec : AggregateSpec) (k : Kernel) : Accumulator k :=
  ⟨spec.extremum, spec.datatype,
    .empty l (k.cellsPerChunk l) k.cellBytes (k.identity spec.extremum)⟩

theorem create_eq (hk : Kernel.ofDataType? spec.datatype = some k) :
    AnyAccumulator.create spec.extremum spec.datatype l = .ok ⟨k, spec.newAccumulator l k⟩ := by
  have haccepts : k.accepts spec.datatype = true := by simp [Kernel.accepts, hk]
  simp only [AnyAccumulator.create, hk, Accumulator.create, if_pos haccepts]
  rfl

theorem usesLayout_newAccumulator (l : ChunkLayout) (spec : AggregateSpec) (k : Kernel) :
    (spec.newAccumulator l k).UsesLayout l := .empty

theorem hasShape_newAccumulator (l : ChunkLayout) (spec : AggregateSpec) (k : Kernel) :
    SlotTable.HasShape l (k.cellsPerChunk l) k.cellBytes (k.identity spec.extremum)
      (spec.newAccumulator l k).slots := SlotTable.hasShape_empty _ _ _ _

theorem slots_chunkBytes (hk : Kernel.ofDataType? spec.datatype = some k) :
    (spec.newAccumulator l k).slots.chunkBytes = spec.chunkBytes l := by
  rw [(spec.hasShape_newAccumulator l k).chunkBytes_eq, chunkBytes_eq hk, k.valueChunkBytes_eq]

/-- If the bytes of all chunks are there, the new accumulator grows. -/
theorem resize_newAccumulator_of_affords (hk : Kernel.ofDataType? spec.datatype = some k)
    {b : Budget} (hlist : chunks * chunkEntryBytes ≤ maxAllocation)
    (h : b.Affords (chunks * spec.chunkBytes l)) :
    (spec.newAccumulator l k).step b (.resize chunks) =
      (.ok (), (spec.newAccumulator l k).extend chunks,
        b.charge (chunks * spec.chunkBytes l)) := by
  rw [← slots_chunkBytes hk] at h ⊢
  exact Accumulator.Funded.step_resize (s := (spec.newAccumulator l k, b))
    (spec.usesLayout_newAccumulator l k) (Or.inr ⟨h, hlist⟩)

/-- If they are not, one of the reservations is refused. -/
theorem resize_newAccumulator_of_not_affords (hk : Kernel.ofDataType? spec.datatype = some k)
    {b : Budget} (hb : b.Affords 0) (hlist : chunks * chunkEntryBytes ≤ maxAllocation)
    (h : ¬ b.Affords (chunks * spec.chunkBytes l)) :
    ∃ err, ((spec.newAccumulator l k).step b (.resize chunks)).1 = .error err ∧
      b.Refuses (spec.requests l chunks) err := by
  have hshape := spec.hasShape_newAccumulator l k
  obtain ⟨hcells, hwords⟩ := (spec.usesLayout_newAccumulator l k).chunkBytes_le
  have hok := (spec.usesLayout_newAccumulator l k).ensureChunks_ok_iff b chunks
  cases hresult : ((spec.newAccumulator l k).slots.ensureChunks b chunks).1 with
  | ok done =>
      rcases hok.mp hresult with hle | ⟨haffords, -⟩
      · -- No chunk is asked for, so nothing has to be reserved.
        have hzero : chunks = 0 := Nat.le_zero.mp hle
        rw [hzero, Nat.zero_mul] at h
        exact absurd hb h
      · rw [slots_chunkBytes hk] at haffords
        exact absurd haffords h
  | error err =>
      have hrefused := hshape.wellFormed.refuses_of_ensureChunks hcells hwords hb hlist hresult
      rw [hshape.cells_chunkBytes, hshape.words_chunkBytes, ← k.valueChunkBytes_eq] at hrefused
      rw [requests_eq hk]
      exact ⟨err, hresult, hrefused⟩

end AggregateSpec

/-! ### Members one after the other -/

namespace Member

variable {l : ChunkLayout} {chunks : Nat} {spec : AggregateSpec} {specs : List AggregateSpec}
  {b : Budget}

/-- The member is for its aggregate, and its chunks are new: no row has been folded into any of
their slots. -/
structure IsNew (l : ChunkLayout) (chunks : Nat) (m : Member) : Prop where
  kernel_eq : Kernel.ofDataType? m.spec.datatype = some m.accumulator.kernel
  extremum_eq : m.accumulator.accumulator.extremum = m.spec.extremum
  datatype_eq : m.accumulator.accumulator.datatype = m.spec.datatype
  layout_eq : m.accumulator.accumulator.layout = l
  size_eq : m.size = chunks
  valueChunk?_eq : ∀ c < chunks, m.accumulator.accumulator.valueChunk? c =
    some (Array.replicate (m.accumulator.kernel.cellsPerChunk l)
      (m.accumulator.kernel.identity m.spec.extremum))
  validityChunk?_eq : ∀ c < chunks,
    m.accumulator.accumulator.validityChunk? c = some (Array.replicate l.wordsPerChunk 0)
  /-- Every slot has the value of the identity and is not valid. -/
  slot?_eq : ∀ n, (l.slot n).chunk < chunks →
    m.accumulator.kernel.slot? m.accumulator.accumulator.slots n =
      some (m.accumulator.kernel.start m.spec.extremum, false)

theorem isNew_extend {k : Kernel} (hk : Kernel.ofDataType? spec.datatype = some k) (l : ChunkLayout)
    (chunks : Nat) : IsNew l chunks ⟨spec, ⟨k, (spec.newAccumulator l k).extend chunks⟩⟩ where
  kernel_eq := hk
  extremum_eq := rfl
  datatype_eq := rfl
  layout_eq := rfl
  size_eq := by
    show ((spec.newAccumulator l k).extend chunks).size = chunks
    rw [Accumulator.size_extend]
    exact Nat.zero_add chunks
  valueChunk?_eq := by
    intro c hc
    have hgrown := (spec.hasShape_newAccumulator l k).grownTo_extend (Nat.zero_lt_of_lt hc)
    exact hgrown.new_cells c (Nat.zero_le c) hc
  validityChunk?_eq := by
    intro c hc
    have hgrown := (spec.hasShape_newAccumulator l k).grownTo_extend (Nat.zero_lt_of_lt hc)
    exact hgrown.new_words c (Nat.zero_le c) hc
  slot?_eq := by
    intro n hn
    have hslot := (Kernel.fits_empty spec.extremum k l).slot?_extend chunks n
    have hadded : (l.slot n).chunk < 0 + chunks := (Nat.zero_add chunks).symm ▸ hn
    rw [Kernel.contents_nil] at hslot
    exact hslot.trans ((if_neg (Nat.not_lt_zero _)).trans (if_pos hadded))

/-- An aggregate without a kernel is refused. -/
theorem create_of_null (h : spec.datatype = .null) :
    create l chunks spec b = .error (.noKernel spec.extremum .null) := by
  rw [create, h]
  rfl

theorem create_of_affords {k : Kernel} (hk : Kernel.ofDataType? spec.datatype = some k)
    (hlist : chunks * chunkEntryBytes ≤ maxAllocation)
    (h : b.Affords (chunks * spec.chunkBytes l)) :
    create l chunks spec b = .ok (⟨spec, ⟨k, (spec.newAccumulator l k).extend chunks⟩⟩,
      b.charge (chunks * spec.chunkBytes l)) := by
  simp only [create, AggregateSpec.create_eq hk, AnyAccumulator.step,
    AggregateSpec.resize_newAccumulator_of_affords hk hlist h]

theorem create_of_not_affords {k : Kernel} (hk : Kernel.ofDataType? spec.datatype = some k)
    (hb : b.Affords 0) (hlist : chunks * chunkEntryBytes ≤ maxAllocation)
    (h : ¬ b.Affords (chunks * spec.chunkBytes l)) :
    ∃ err, create l chunks spec b = .error err ∧ b.Refuses (spec.requests l chunks) err := by
  obtain ⟨err, herr, hrefused⟩ :=
    AggregateSpec.resize_newAccumulator_of_not_affords hk hb hlist h
  refine ⟨err, ?_, hrefused⟩
  rcases hstep : (spec.newAccumulator l k).step b (.resize chunks) with ⟨result, a, b'⟩
  rw [hstep] at herr
  have herr : result = .error err := herr
  simp only [create, AggregateSpec.create_eq hk, AnyAccumulator.step, hstep, herr]

/-- The aggregates before this one can be made, and this one cannot: it has no kernel, or its bytes
come on top of theirs and there is no room for them. -/
structure FailsAt (l : ChunkLayout) (chunks : Nat) (b : Budget) (before : List AggregateSpec)
    (spec : AggregateSpec) (err : Error) : Prop where
  typed : ∀ s ∈ before, s.datatype ≠ .null
  affords : b.Affords (AggregateSpec.totalBytes l chunks before)
  cause : (spec.datatype = .null ∧ err = .noKernel spec.extremum .null) ∨
    (spec.datatype ≠ .null ∧
      ¬ b.Affords (AggregateSpec.totalBytes l chunks before + chunks * spec.chunkBytes l) ∧
      (b.charge (AggregateSpec.totalBytes l chunks before)).Refuses (spec.requests l chunks) err)

/-- The aggregates that can be made may be more by one at their start. -/
theorem FailsAt.cons {before : List AggregateSpec} {spec₀ : AggregateSpec} {err : Error}
    (htyped : spec₀.datatype ≠ .null)
    (h : FailsAt l chunks (b.charge (chunks * spec₀.chunkBytes l)) before spec err) :
    FailsAt l chunks b (spec₀ :: before) spec err where
  typed := List.forall_mem_cons.mpr ⟨htyped, h.typed⟩
  affords := by
    rw [AggregateSpec.totalBytes_cons]
    exact Budget.affords_charge.mp h.affords
  cause := by
    have hcause := h.cause
    rwa [Budget.affords_charge, Budget.charge_charge, ← Nat.add_assoc,
      ← AggregateSpec.totalBytes_cons] at hcause

/-- Members that have been made are new ones, and the budget has been charged for all of them. -/
structure AreNew (l : ChunkLayout) (chunks : Nat) (specs : List AggregateSpec) (b : Budget)
    (ms : List Member) (b' : Budget) : Prop where
  specs_eq : ms.map (·.spec) = specs
  isNew : ∀ m ∈ ms, m.IsNew l chunks
  typed : ∀ s ∈ specs, s.datatype ≠ .null
  affords : b.Affords (AggregateSpec.totalBytes l chunks specs)
  budget_eq : b' = b.charge (AggregateSpec.totalBytes l chunks specs)

theorem AreNew.cons {m : Member} {ms : List Member} {b' : Budget} (hm : m.IsNew l chunks)
    (htyped : m.spec.datatype ≠ .null)
    (h : AreNew l chunks specs (b.charge (chunks * m.spec.chunkBytes l)) ms b') :
    AreNew l chunks (m.spec :: specs) b (m :: ms) b' where
  specs_eq := by
    rw [List.map_cons, h.specs_eq]
  isNew := List.forall_mem_cons.mpr ⟨hm, h.isNew⟩
  typed := List.forall_mem_cons.mpr ⟨htyped, h.typed⟩
  affords := by
    rw [AggregateSpec.totalBytes_cons]
    exact Budget.affords_charge.mp h.affords
  budget_eq := by
    rw [h.budget_eq, Budget.charge_charge, AggregateSpec.totalBytes_cons]

/-- All members are made, or it fails at one of them. -/
theorem createAll_cases (hb : b.Affords 0) (hlist : chunks * chunkEntryBytes ≤ maxAllocation)
    (specs : List AggregateSpec) :
    (∃ ms b', createAll l chunks specs b = .ok (ms, b') ∧ AreNew l chunks specs b ms b') ∨
    ∃ before spec after err, specs = before ++ spec :: after ∧
      createAll l chunks specs b = .error err ∧ FailsAt l chunks b before spec err := by
  induction specs generalizing b with
  | nil =>
      refine Or.inl ⟨[], b, rfl, rfl, ?_, ?_, hb, rfl⟩
      · exact fun m hm => absurd hm List.not_mem_nil
      · exact fun s hs => absurd hs List.not_mem_nil
  | cons spec specs ih =>
      by_cases hnull : spec.datatype = .null
      · refine Or.inr ⟨[], spec, specs, _, rfl, ?_, ?_, hb, Or.inl ⟨hnull, rfl⟩⟩
        · rw [createAll, create_of_null hnull]
        · exact fun s hs => absurd hs List.not_mem_nil
      · obtain ⟨k, hk⟩ := AggregateSpec.exists_kernel hnull
        by_cases haffords : b.Affords (chunks * spec.chunkBytes l)
        · have hm := create_of_affords hk hlist haffords
          have hrest : (b.charge (chunks * spec.chunkBytes l)).Affords 0 :=
            Budget.affords_charge.mpr haffords
          rcases ih hrest with
            ⟨ms, b', hms, hnew⟩ | ⟨before, spec', after, err, rfl, herr, hfails⟩
          · refine Or.inl ⟨_, b', ?_, .cons (isNew_extend hk l chunks) hnull hnew⟩
            rw [createAll, hm]
            simp only [hms]
          · refine Or.inr ⟨spec :: before, spec', after, err, rfl, ?_, hfails.cons hnull⟩
            rw [createAll, hm]
            simp only [herr]
        · obtain ⟨err, herr, hrefused⟩ := create_of_not_affords hk hb hlist haffords
          refine Or.inr ⟨[], spec, specs, err, rfl, ?_, ?_, hb, Or.inr ⟨hnull, ?_, hrefused⟩⟩
          · rw [createAll, herr]
          · exact fun s hs => absurd hs List.not_mem_nil
          · rwa [AggregateSpec.totalBytes_nil, Nat.zero_add]

end Member

/-! ### Sets -/

namespace AccumulatorSet

/-- What making a set comes to: it succeeds exactly if the layouts agree, every aggregate has a
kernel and all chunks together are within the limit, and then there is a new accumulator for each
aggregate. If the layouts agree, it fails at the first aggregate that cannot be made after those
before it. -/
structure CreatesInOrder (config : Config) (source : OrdinalSource) (specs : List AggregateSpec) :
    Prop where
  ok_iff : (∃ s, create config source specs = .ok s) ↔
    source.layout = config.layout ∧ (∀ spec ∈ specs, spec.datatype ≠ .null) ∧
      AggregateSpec.totalBytes config.layout source.chunks specs ≤ config.budget.ceiling
  of_ok : ∀ s, create config source specs = .ok s →
    s.specs = specs ∧ (∀ m ∈ s.members, m.IsNew config.layout source.chunks) ∧
      s.memoryUsage = AggregateSpec.totalBytes config.layout source.chunks specs
  of_error : ∀ err, create config source specs = .error err →
    (source.layout ≠ config.layout ∧ err = .layoutMismatch config.layout source.layout) ∨
    (source.layout = config.layout ∧ ∃ before spec after, specs = before ++ spec :: after ∧
      Member.FailsAt config.layout source.chunks config.budget before spec err)

variable {config : Config} {source : OrdinalSource} {specs : List AggregateSpec}

theorem affords_iff_le_ceiling (config : Config) (bytes : Nat) :
    config.budget.Affords bytes ↔ bytes ≤ config.budget.ceiling := by
  rw [Budget.Affords, show config.budget.reserved = 0 from rfl, Nat.zero_add]

theorem create_of_layout_ne (h : source.layout ≠ config.layout) :
    create config source specs = .error (.layoutMismatch config.layout source.layout) :=
  if_pos (Ne.symm h)

theorem create_of_layout_eq (h : source.layout = config.layout) :
    create config source specs =
      match Member.createAll config.layout source.chunks specs config.budget with
      | .error e => .error e
      | .ok (members, budget) => .ok ⟨members, budget⟩ :=
  if_neg (not_not_intro h.symm)

/-- What stops the aggregates one after the other is also what the totals say. -/
theorem not_typed_and_affords_of_failsAt {before after : List AggregateSpec} {spec : AggregateSpec}
    {err : Error}
    (h : Member.FailsAt config.layout source.chunks config.budget before spec err) :
    ¬ ((∀ s ∈ before ++ spec :: after, s.datatype ≠ .null) ∧
      AggregateSpec.totalBytes config.layout source.chunks (before ++ spec :: after) ≤
        config.budget.ceiling) := by
  rintro ⟨htyped, htotal⟩
  rcases h.cause with ⟨hnull, -⟩ | ⟨-, hfull, -⟩
  · exact htyped spec (List.mem_append_right _ List.mem_cons_self) hnull
  · refine hfull ?_
    rw [affords_iff_le_ceiling]
    refine Nat.le_trans ?_ htotal
    simp only [AggregateSpec.totalBytes, List.map_append, List.map_cons, List.sum_append_nat,
      List.sum_cons, Nat.mul_add]
    omega

/-- A set is made exactly if all of its chunks are within the limit, which they reach one by one. -/
theorem createsInOrder (config : Config) (source : OrdinalSource) (specs : List AggregateSpec)
    (hlist : source.chunks * chunkEntryBytes ≤ maxAllocation) :
    CreatesInOrder config source specs := by
  by_cases hlayout : source.layout = config.layout
  · have hcreate : create config source specs = _ := create_of_layout_eq hlayout
    have hb : config.budget.Affords 0 := (affords_iff_le_ceiling config 0).mpr (Nat.zero_le _)
    rcases Member.createAll_cases (l := config.layout) hb hlist specs with
      ⟨ms, b', hms, hnew⟩ | ⟨before, spec, after, err, rfl, herr, hfails⟩
    · rw [hms] at hcreate
      refine ⟨?_, ?_, ?_⟩
      · refine iff_of_true ⟨_, hcreate⟩ ⟨hlayout, hnew.typed, ?_⟩
        exact (affords_iff_le_ceiling config _).mp hnew.affords
      · intro s hs
        obtain rfl := Except.ok.inj (hcreate.symm.trans hs)
        refine ⟨hnew.specs_eq, hnew.isNew, ?_⟩
        show b'.reserved = _
        rw [hnew.budget_eq]
        exact Nat.zero_add _
      · intro err herr
        exact absurd (hcreate.symm.trans herr) (by simp)
    · rw [herr] at hcreate
      refine ⟨?_, ?_, ?_⟩
      · refine iff_of_false ?_ fun h => not_typed_and_affords_of_failsAt hfails h.2
        rintro ⟨s, hs⟩
        exact absurd (hcreate.symm.trans hs) (by simp)
      · intro s hs
        exact absurd (hcreate.symm.trans hs) (by simp)
      · intro err' herr'
        obtain rfl := Except.error.inj (hcreate.symm.trans herr')
        exact Or.inr ⟨hlayout, before, spec, after, rfl, hfails⟩
  · have hcreate : create config source specs = _ := create_of_layout_ne hlayout
    refine ⟨?_, ?_, ?_⟩
    · refine iff_of_false ?_ fun h => hlayout h.1
      rintro ⟨s, hs⟩
      exact absurd (hcreate.symm.trans hs) (by simp)
    · intro s hs
      exact absurd (hcreate.symm.trans hs) (by simp)
    · intro err herr
      exact Or.inl ⟨hlayout, Except.error.inj (herr.symm.trans hcreate)⟩

/-- Two chunks of integers and of truth values take 536 bytes. Below 700 bytes there is room for one
more chunk of values of a third aggregate, and the second one of them is refused. -/
theorem createsInOrder_of_three_aggregates :
    (∃ s, create ⟨⟨5, by decide, by decide⟩, some 700⟩ ⟨⟨5, by decide, by decide⟩, 2⟩
        [⟨0, .min, .int64⟩, ⟨0, .max, .boolean⟩] = .ok s ∧ s.memoryUsage = 2 * (260 + 8)) ∧
    (¬ ∃ s, create ⟨⟨5, by decide, by decide⟩, some 700⟩ ⟨⟨5, by decide, by decide⟩, 2⟩
        [⟨0, .min, .int64⟩, ⟨0, .max, .boolean⟩, ⟨1, .min, .int32⟩] = .ok s) ∧
    create ⟨⟨5, by decide, by decide⟩, some 700⟩ ⟨⟨5, by decide, by decide⟩, 2⟩
        [⟨0, .min, .int64⟩, ⟨0, .max, .boolean⟩, ⟨1, .min, .int32⟩] =
      .error (.overBudget 128 (2 * (260 + 8) + 128) (some 700)) := by
  have htwo := createsInOrder ⟨⟨5, by decide, by decide⟩, some 700⟩
    ⟨⟨5, by decide, by decide⟩, 2⟩ [⟨0, .min, .int64⟩, ⟨0, .max, .boolean⟩] (by decide)
  have hthree := createsInOrder ⟨⟨5, by decide, by decide⟩, some 700⟩
    ⟨⟨5, by decide, by decide⟩, 2⟩ [⟨0, .min, .int64⟩, ⟨0, .max, .boolean⟩, ⟨1, .min, .int32⟩]
    (by decide)
  refine ⟨?_, ?_, rfl⟩
  · obtain ⟨s, hs⟩ := htwo.ok_iff.mpr (by decide)
    exact ⟨s, hs, (htwo.of_ok s hs).2.2⟩
  · exact mt hthree.ok_iff.mp (by decide)

end AccumulatorSet

end GroupedExtrema
