import GroupedExtrema.Proofs.StoreLists
import Mathlib.Algebra.Order.BigOperators.Group.Finset
import Mathlib.Data.Fintype.BigOperators
import Mathlib.Order.Bounds.Defs

/-!
# Stores that share a budget

Any number of stores, of any shapes and element types, take their chunks from one budget, each at
its own pace. How far one of them can grow depends on what all the others hold at that moment, and a
growth that fails half way keeps what it has got.

All of this is determined by plain lists. `ListPool` has a list of lists for every store, no budget
and no reservations: what has been reserved is the sum of the bytes of all lists. A pool of stores
does the same at every call (`StorePool.Balanced.lists_step`), because its budget counts that sum
(`StorePool.Balanced.step`).

What an element holds is said by the calls as well. A store's log has every call on it, with the
number of chunks before and after, and the element holds what the last of these calls that stored
something there has stored (`StoreRecord.stored?`).
-/

namespace GroupedExtrema

/-- Number of elements of a chunk and of bytes of an element. -/
structure StoreShape where
  chunkLength : Nat
  elementBytes : Nat

/-- Bytes of the elements of one chunk. -/
def StoreShape.chunkBytes (shape : StoreShape) : Nat := shape.chunkLength * shape.elementBytes

/-- One operation on a store. -/
inductive StoreCall (α : Type) where
  /-- Grows to at least so many chunks. -/
  | grow (chunks : Nat) (fill : α)
  /-- Drops the chunks from an index on. -/
  | truncate (chunks : Nat)
  /-- Overwrites every element. -/
  | fill (value : α)
  /-- Writes one element. Nothing happens if there is none at that place. -/
  | set (chunk offset : Nat) (value : α)
  /-- Drops the store. -/
  | drop

/-- A call with the numbers of chunks before and after it. -/
structure StoreRecord (α : Type) where
  call : StoreCall α
  before : Nat
  after : Nat

/-- What a call has stored at a place, if anything. -/
def StoreRecord.stored? {α : Type} (r : StoreRecord α) (chunk offset : Nat) : Option α :=
  match r.call with
  | .grow _ fill => if r.before ≤ chunk ∧ chunk < r.after then some fill else none
  | .truncate _ => none
  | .fill value => if chunk < r.before then some value else none
  | .set c o value => if c = chunk ∧ o = offset ∧ chunk < r.before then some value else none
  | .drop => none

/-- What has been stored last at a place. The log begins with the last call. -/
def lastStored? {α : Type} (log : List (StoreRecord α)) (chunk offset : Nat) : Option α :=
  log.findSome? (·.stored? chunk offset)

section

variable {α : Type} {r : StoreRecord α} {log : List (StoreRecord α)} {chunk offset : Nat}

theorem lastStored?_cons_of_some {value : α} (h : r.stored? chunk offset = some value) :
    lastStored? (r :: log) chunk offset = some value := by
  rw [lastStored?, List.findSome?_cons, h]

/-- A call that stores nothing at a place leaves what is there. -/
theorem lastStored?_cons_of_none (h : r.stored? chunk offset = none) :
    lastStored? (r :: log) chunk offset = lastStored? log chunk offset := by
  rw [lastStored?, List.findSome?_cons, h]
  rfl

end

namespace StoreCall

variable {α : Type}

/-- The store and the budget after a call. There is no store once it has been dropped. -/
def perform (s : ChunkStore α) (b : Budget) : StoreCall α → Option (ChunkStore α) × Budget
  | grow chunks value =>
    match s.grow b chunks value with
    | (_, s, b) => (some s, b)
  | truncate chunks =>
    match s.truncate b chunks with
    | (s, b) => (some s, b)
  | fill value => (some (s.fill value), b)
  | set chunk offset value => (some ((s.set? chunk offset value).getD s), b)
  | drop => (none, s.free b)

/-- The lists of a store after a call, if they were those of a store of some shape. -/
def performLists (shape : StoreShape) (b : Budget) (xs : List (List α)) :
    StoreCall α → Option (List (List α))
  | grow chunks value =>
    some (xs ++ List.replicate (ChunkStore.growth b shape.chunkBytes xs.length chunks)
      (List.replicate shape.chunkLength value))
  | truncate chunks => some (xs.take chunks)
  | fill value => some (xs.map (·.map fun _ => value))
  | set chunk offset value => some (xs.modify chunk (·.set offset value))
  | drop => none

end StoreCall

/-! ### One store -/

/-- The store has a shape, and its elements hold what the log says. -/
structure ChunkStore.Follows {α : Type} (shape : StoreShape) (log : List (StoreRecord α))
    (s : ChunkStore α) : Prop where
  wellFormed : s.WellFormed
  length_eq : s.chunkLength = shape.chunkLength
  bytes_eq : s.elementBytes = shape.elementBytes
  get?_eq : ∀ c < s.size, ∀ o < shape.chunkLength, s.get? c o = lastStored? log c o

namespace ChunkStore.Follows

variable {α : Type} {shape : StoreShape} {log : List (StoreRecord α)} {s : ChunkStore α}
  {b : Budget}

theorem chunkBytes_eq (h : s.Follows shape log) : s.chunkBytes = shape.chunkBytes := by
  rw [chunkBytes, h.length_eq, h.bytes_eq]
  rfl

theorem exists_get? (h : s.Follows shape log) {c o : Nat} (hc : c < s.size)
    (ho : o < shape.chunkLength) : ∃ v, s.get? c o = some v := by
  rw [← h.length_eq] at ho
  exact Option.isSome_iff_exists.mp (h.wellFormed.isSome_get?_iff.mpr ⟨hc, ho⟩)

/-- Every call does to the lists of a store what it does to lists. -/
theorem map_lists_perform (h : s.Follows shape log) (b : Budget) (call : StoreCall α) :
    (call.perform s b).1.map lists = call.performLists shape b s.lists := by
  cases call with
  | grow chunks fill =>
      obtain ⟨result, heq, -⟩ := s.grow_eq_growth b chunks fill
      simp only [StoreCall.perform, StoreCall.performLists, heq, Option.map_some, lists_extend,
        h.chunkBytes_eq, h.length_eq, length_lists]
  | truncate chunks => exact congrArg some (s.lists_truncate b chunks)
  | fill value => exact congrArg some (s.lists_fill value)
  | set chunk offset value => exact congrArg some (s.lists_set? chunk offset value)
  | drop => rfl

/-- New elements hold the fill. -/
theorem extend (h : s.Follows shape log) (n chunks : Nat) (value : α) :
    (s.extend n value).Follows shape (⟨.grow chunks value, s.size, s.size + n⟩ :: log) := by
  refine ⟨h.wellFormed.extend n value, h.length_eq, h.bytes_eq, ?_⟩
  intro c hc o ho
  rw [size_extend] at hc
  rw [get?_extend, h.length_eq]
  by_cases hold : c < s.size
  · have hstored : StoreRecord.stored? ⟨.grow chunks value, s.size, s.size + n⟩ c o = none :=
      if_neg fun hnew => Nat.not_le.mpr hold hnew.1
    rw [if_pos hold, lastStored?_cons_of_none hstored]
    exact h.get?_eq c hold o ho
  · have hstored : StoreRecord.stored? ⟨.grow chunks value, s.size, s.size + n⟩ c o = some value :=
      if_pos ⟨Nat.not_lt.mp hold, hc⟩
    rw [if_neg hold, if_pos ⟨hc, ho⟩, lastStored?_cons_of_some hstored]

theorem truncate (h : s.Follows shape log) (b : Budget) (chunks after : Nat) :
    (s.truncate b chunks).1.Follows shape (⟨.truncate chunks, s.size, after⟩ :: log) := by
  refine ⟨h.wellFormed.truncate b chunks, h.length_eq, h.bytes_eq, ?_⟩
  intro c hc o ho
  rw [size_truncate] at hc
  have hkept : c < chunks := by omega
  have hthere : c < s.size := by omega
  rw [get?_truncate s b chunks hkept, lastStored?_cons_of_none rfl]
  exact h.get?_eq c hthere o ho

theorem fill (h : s.Follows shape log) (value : α) (after : Nat) :
    (s.fill value).Follows shape (⟨.fill value, s.size, after⟩ :: log) := by
  refine ⟨h.wellFormed.fill value, h.length_eq, h.bytes_eq, ?_⟩
  intro c hc o ho
  rw [size_fill] at hc
  have hstored : StoreRecord.stored? ⟨.fill value, s.size, after⟩ c o = some value := if_pos hc
  obtain ⟨v, hv⟩ := h.exists_get? hc ho
  rw [get?_fill, hv, lastStored?_cons_of_some hstored, Option.map_some]

/-- Only the element that is written changes. -/
theorem write (h : s.Follows shape log) (chunk offset : Nat) (value : α) (after : Nat) :
    (s.update chunk offset fun _ => value).Follows shape
      (⟨.set chunk offset value, s.size, after⟩ :: log) := by
  refine ⟨h.wellFormed.update _ _ _, h.length_eq, h.bytes_eq, ?_⟩
  intro c hc o ho
  rw [size_update] at hc
  rw [get?_update]
  by_cases hplace : c = chunk ∧ o = offset
  · have hstored : StoreRecord.stored? ⟨.set chunk offset value, s.size, after⟩ c o = some value :=
      if_pos ⟨hplace.1.symm, hplace.2.symm, hc⟩
    obtain ⟨v, hv⟩ := h.exists_get? hc ho
    rw [if_pos hplace, hv, lastStored?_cons_of_some hstored, Option.map_some]
  · have hstored : StoreRecord.stored? ⟨.set chunk offset value, s.size, after⟩ c o = none :=
      if_neg fun hwritten => hplace ⟨hwritten.1.symm, hwritten.2.1.symm⟩
    rw [if_neg hplace, lastStored?_cons_of_none hstored]
    exact h.get?_eq c hc o ho

/-- A call that keeps the store keeps its shape, and the elements of the store hold what the log
with the call says. -/
theorem perform (h : s.Follows shape log) {call : StoreCall α} {s' : ChunkStore α}
    (hs' : (call.perform s b).1 = some s') :
    s'.Follows shape (⟨call, s.size, s'.size⟩ :: log) := by
  cases call with
  | grow chunks value =>
      obtain ⟨result, heq, -⟩ := s.grow_eq_growth b chunks value
      simp only [StoreCall.perform, heq, Option.some.injEq] at hs'
      subst hs'
      rw [size_extend]
      exact h.extend _ chunks value
  | truncate chunks =>
      obtain rfl := Option.some.inj hs'
      exact h.truncate b chunks _
  | fill value =>
      obtain rfl := Option.some.inj hs'
      exact h.fill value _
  | set chunk offset value =>
      obtain rfl := Option.some.inj hs'
      rw [getD_set?]
      exact h.write chunk offset value _
  | drop => exact absurd hs' (by simp [StoreCall.perform])

end ChunkStore.Follows

/-! ### The budget -/

/-- Between the two budgets an owner has come from holding `held` bytes to holding `held'`. Unlike
for `PaysFor`, these may be fewer. -/
structure Budget.Settles (b b' : Budget) (held held' : Nat) : Prop where
  limit_eq : b'.limit = b.limit
  reserved_add : b'.reserved + held = b.reserved + held'
  reserved_le : b.reserved ≤ b.ceiling → b'.reserved ≤ b'.ceiling

/-- Number of chunks of a store that may have been dropped. -/
def ChunkStore.sizeOf? {α : Type} (s : Option (ChunkStore α)) : Nat := s.elim 0 ChunkStore.size

theorem ChunkStore.length_map_lists {α : Type} (s : Option (ChunkStore α)) :
    (s.map lists).elim 0 List.length = sizeOf? s := by
  cases s with
  | none => rfl
  | some s => exact s.length_lists

namespace ChunkStore.WellFormed

variable {α : Type} {s : ChunkStore α} {b : Budget}

/-- A call reserves bytes for the chunks that it adds and gives those of dropped chunks back. -/
theorem settles_perform (h : s.WellFormed) (hheld : s.size * s.chunkBytes ≤ b.reserved)
    (call : StoreCall α) :
    b.Settles (call.perform s b).2 (s.size * s.chunkBytes)
      (sizeOf? (call.perform s b).1 * s.chunkBytes) := by
  cases call with
  | grow chunks value =>
      obtain ⟨result, heq, -⟩ := s.grow_eq_growth b chunks value
      simp only [StoreCall.perform, heq, sizeOf?, Option.elim_some, size_extend]
      refine ⟨rfl, ?_, fun hle => affords_growth hle _ _ _⟩
      rw [Nat.add_mul, Budget.reserved_charge]
      omega
  | truncate chunks =>
      have hsize : s.size = min chunks s.size + (s.size - chunks) := by omega
      have hbytes : s.size * s.chunkBytes =
          min chunks s.size * s.chunkBytes + (s.size - chunks) * s.chunkBytes := by
        rw [← Nat.add_mul, ← hsize]
      have hdropped : (s.size - chunks) * s.chunkBytes ≤ b.reserved := by omega
      obtain ⟨b, rfl⟩ := Budget.exists_eq_charge hdropped
      have hgiven := h.truncate_charge b chunks
      simp only [StoreCall.perform, sizeOf?, Option.elim_some, size_truncate, hgiven]
      refine ⟨rfl, ?_, fun hle => Nat.le_trans (Nat.le_add_right _ _) hle⟩
      rw [hbytes, Budget.reserved_charge]
      omega
  | fill value =>
      simp only [StoreCall.perform, sizeOf?, Option.elim_some, size_fill]
      exact ⟨rfl, rfl, id⟩
  | set chunk offset value =>
      simp only [StoreCall.perform, sizeOf?, Option.elim_some, getD_set?, size_update]
      exact ⟨rfl, rfl, id⟩
  | drop =>
      obtain ⟨b, rfl⟩ := Budget.exists_eq_charge hheld
      have hgiven := h.free_charge b
      rw [h.allocatedBytes_eq] at hgiven
      simp only [StoreCall.perform, sizeOf?, Option.elim_none, hgiven]
      refine ⟨rfl, ?_, fun hle => Nat.le_trans (Nat.le_add_right _ _) hle⟩
      rw [Nat.zero_mul, Nat.add_zero, Budget.reserved_charge]

end ChunkStore.WellFormed

/-! ### Pools -/

variable {ι : Type} {α : ι → Type}

/-- A call on one of the stores. -/
abbrev PoolCall (α : ι → Type) : Type := (i : ι) × StoreCall (α i)

/-- A list of lists for every store. There is none for a store that has been dropped. -/
abbrev ListPool (α : ι → Type) : Type := (i : ι) → Option (List (List (α i)))

namespace ListPool

variable [Fintype ι]

/-- Number of chunks of a store. -/
def size (p : ListPool α) (i : ι) : Nat := (p i).elim 0 List.length

/-- Bytes of all chunks of all stores. -/
def held (shapes : ι → StoreShape) (p : ListPool α) : Nat :=
  ∑ i, p.size i * (shapes i).chunkBytes

theorem size_mul_le_held (shapes : ι → StoreShape) (p : ListPool α) (i : ι) :
    p.size i * (shapes i).chunkBytes ≤ p.held shapes := by
  have hle := Finset.single_le_sum (fun j _ => Nat.zero_le (p.size j * (shapes j).chunkBytes))
    (Finset.mem_univ i)
  exact hle

variable [DecidableEq ι]

/-- Performs one call. What all lists take together is what has been reserved. -/
def step (limit : Option UInt64) (shapes : ι → StoreShape) (p : ListPool α) (c : PoolCall α) :
    ListPool α :=
  match p c.1 with
  | none => p
  | some xs =>
    Function.update p c.1 (c.2.performLists (shapes c.1) ⟨limit, p.held shapes⟩ xs)

/-- Performs calls one after the other. -/
def run (limit : Option UInt64) (shapes : ι → StoreShape) (p : ListPool α) :
    List (PoolCall α) → ListPool α
  | [] => p
  | c :: cs => run limit shapes (p.step limit shapes c) cs

/-- Changing one store changes the bytes of that one. -/
theorem held_update (shapes : ι → StoreShape) (p : ListPool α) (i : ι)
    (xs : Option (List (List (α i)))) :
    held shapes (Function.update p i xs) + p.size i * (shapes i).chunkBytes =
      p.held shapes + xs.elim 0 List.length * (shapes i).chunkBytes := by
  have hothers : ∑ j ∈ Finset.univ.erase i,
      size (Function.update p i xs) j * (shapes j).chunkBytes =
        ∑ j ∈ Finset.univ.erase i, p.size j * (shapes j).chunkBytes := by
    refine Finset.sum_congr rfl fun j hj => ?_
    rw [size, size, Function.update_of_ne (Finset.ne_of_mem_erase hj)]
  have hself : size (Function.update p i xs) i = xs.elim 0 List.length := by
    rw [size, Function.update_self]
  rw [held, held, ← Finset.add_sum_erase _ _ (Finset.mem_univ i),
    ← Finset.add_sum_erase _ _ (Finset.mem_univ i), hothers, hself]
  omega

end ListPool

/-- Stores that share a budget, and a log of the calls on each of them, the last one first. The log
is there for reasoning: no operation looks at it. -/
structure StorePool (α : ι → Type) where
  budget : Budget
  /-- The stores that have not been dropped. -/
  stores : (i : ι) → Option (ChunkStore (α i))
  log : (i : ι) → List (StoreRecord (α i))

namespace StorePool

/-- Stores without chunks. One that is made later is one that is not called before. -/
def ofLimit (α : ι → Type) (limit : Option UInt64) (shapes : ι → StoreShape) : StorePool α where
  budget := .ofLimit limit
  stores := fun i => some (.empty (shapes i).chunkLength (shapes i).elementBytes)
  log := fun _ => []

/-- The lists of all stores. -/
def lists (p : StorePool α) : ListPool α := fun i => (p.stores i).map ChunkStore.lists

/-- Number of chunks of a store. -/
def size (p : StorePool α) (i : ι) : Nat := ChunkStore.sizeOf? (p.stores i)

theorem size_lists (p : StorePool α) (i : ι) : p.lists.size i = p.size i :=
  ChunkStore.length_map_lists (p.stores i)

/-- Performs one call. A store that has been dropped has no calls any more. -/
def step [DecidableEq ι] (p : StorePool α) (c : PoolCall α) : StorePool α :=
  match p.stores c.1 with
  | none => p
  | some s =>
    match c.2.perform s p.budget with
    | (s', budget) => {
        budget := budget
        stores := Function.update p.stores c.1 s'
        log := Function.update p.log c.1 (⟨c.2, s.size, ChunkStore.sizeOf? s'⟩ :: p.log c.1) }

/-- Performs calls one after the other. -/
def run [DecidableEq ι] (p : StorePool α) : List (PoolCall α) → StorePool α
  | [] => p
  | c :: cs => run (p.step c) cs

variable {p : StorePool α} {i : ι} {s : ChunkStore (α i)}

theorem size_of_some (hs : p.stores i = some s) : p.size i = s.size := by
  rw [size, hs]
  rfl

theorem step_of_none [DecidableEq ι] (hs : p.stores i = none) (call : StoreCall (α i)) :
    p.step ⟨i, call⟩ = p := by
  simp only [step, hs]

section

variable [DecidableEq ι] (hs : p.stores i = some s) (call : StoreCall (α i))

include hs

theorem budget_step : (p.step ⟨i, call⟩).budget = (call.perform s p.budget).2 := by
  simp only [step, hs]

theorem stores_step : (p.step ⟨i, call⟩).stores =
    Function.update p.stores i (call.perform s p.budget).1 := by
  simp only [step, hs]

theorem log_step : (p.step ⟨i, call⟩).log = Function.update p.log i
    (⟨call, s.size, ChunkStore.sizeOf? (call.perform s p.budget).1⟩ :: p.log i) := by
  simp only [step, hs]

theorem lists_step : (p.step ⟨i, call⟩).lists =
    Function.update p.lists i ((call.perform s p.budget).1.map ChunkStore.lists) := by
  funext j
  rw [lists, stores_step hs]
  exact Function.apply_update (fun _ => Option.map ChunkStore.lists) p.stores i _ j

end

variable [Fintype ι] {limit : Option UInt64} {shapes : ι → StoreShape}

/-- The budget counts what all stores hold, and the stores are as their logs say. -/
structure Balanced (limit : Option UInt64) (shapes : ι → StoreShape) (p : StorePool α) : Prop where
  limit_eq : p.budget.limit = limit
  reserved_eq : p.budget.reserved = p.lists.held shapes
  reserved_le : p.budget.reserved ≤ p.budget.ceiling
  follows : ∀ i s, p.stores i = some s → s.Follows (shapes i) (p.log i)

theorem balanced_ofLimit (limit : Option UInt64) (shapes : ι → StoreShape) :
    Balanced limit shapes (ofLimit α limit shapes) where
  limit_eq := rfl
  reserved_eq := by
    refine (Finset.sum_eq_zero fun i _ => ?_).symm
    exact Nat.zero_mul _
  reserved_le := Nat.zero_le _
  follows := by
    intro i s hs
    obtain rfl := Option.some.inj hs
    exact ⟨ChunkStore.wellFormed_empty _ _, rfl, rfl, fun c hc => absurd hc (Nat.not_lt_zero c)⟩

namespace Balanced

theorem budget_eq (h : p.Balanced limit shapes) : p.budget = ⟨limit, p.lists.held shapes⟩ := by
  rw [← h.limit_eq, ← h.reserved_eq]

theorem held_eq (h : p.Balanced limit shapes) :
    p.budget.reserved = ∑ i, p.size i * (shapes i).chunkBytes := by
  rw [h.reserved_eq, ListPool.held]
  exact Finset.sum_congr rfl fun i _ => congrArg (· * _) (p.size_lists i)

/-- What a store grows by is the most that there is room for beside everything that is held. -/
theorem isGreatest_growth (h : p.Balanced limit shapes) {chunks : Nat}
    (hlist : chunks * chunkEntryBytes ≤ maxAllocation)
    (hbytes : (shapes i).chunkBytes ≤ maxAllocation) (size : Nat) :
    IsGreatest {m | m ≤ chunks - size ∧
        ∑ j, p.size j * (shapes j).chunkBytes + m * (shapes i).chunkBytes ≤ p.budget.ceiling}
      (ChunkStore.growth p.budget (shapes i).chunkBytes size chunks) := by
  rw [← h.held_eq, ChunkStore.growth, if_pos ⟨hlist, hbytes⟩]
  constructor
  · exact ⟨Budget.admitted_le _ _ _, Budget.affords_admitted h.reserved_le _ _⟩
  · intro m hm
    exact Budget.le_admitted hm.1 hm.2

theorem size_mul_le (h : p.Balanced limit shapes) (hs : p.stores i = some s) :
    s.size * s.chunkBytes ≤ p.budget.reserved := by
  have hle := p.lists.size_mul_le_held shapes i
  rw [size_lists, size_of_some hs, ← h.reserved_eq, ← (h.follows i s hs).chunkBytes_eq] at hle
  exact hle

end Balanced

/-! ### What a balanced pool guarantees -/

/-- The stores of a pool are lists that take their bytes from one budget. -/
structure KeepsLists (limit : Option UInt64) (shapes : ι → StoreShape) (p : StorePool α) :
    Prop where
  limit_eq : p.budget.limit = limit
  /-- The budget counts what all stores hold, and nothing else. -/
  reserved_eq : p.budget.reserved =
    ∑ i, p.size i * (shapes i).chunkLength * (shapes i).elementBytes
  reservations_eq : ∀ i s, p.stores i = some s →
    s.reservations = Array.replicate s.size ⟨(shapes i).chunkBytes⟩
  size_of_mem : ∀ i s, p.stores i = some s → ∀ c ∈ s.chunks, c.size = (shapes i).chunkLength
  /-- Every element has been stored, and what has been stored last is there. -/
  get?_eq : ∀ i s, p.stores i = some s → ∀ c < s.size, ∀ o < (shapes i).chunkLength,
    ∃ v, s.get? c o = some v ∧ lastStored? (p.log i) c o = some v
  /-- A store grows by as many chunks as there is room for beside everything that is held. It
  succeeds if these are all that are missing. -/
  grow : ∀ i s, p.stores i = some s → ∀ chunks fill, chunks * chunkEntryBytes ≤ maxAllocation →
    (shapes i).chunkBytes ≤ maxAllocation → ∃ m result,
      IsGreatest {m | m ≤ chunks - s.size ∧
        ∑ j, p.size j * (shapes j).chunkBytes + m * (shapes i).chunkBytes ≤ p.budget.ceiling} m ∧
      s.grow p.budget chunks fill =
        (result, s.extend m fill, p.budget.charge (m * (shapes i).chunkBytes)) ∧
      (s.extend m fill).lists =
        s.lists ++ List.replicate m (List.replicate (shapes i).chunkLength fill) ∧
      ∀ k, result = .ok k ↔ k = chunks - s.size ∧ m = chunks - s.size
  /-- What has been reserved for a chunk that cannot be allocated is given back. -/
  grow_too_large : ∀ i s, p.stores i = some s → ∀ chunks fill, s.size < chunks →
    maxAllocation < chunks * chunkEntryBytes ∨ maxAllocation < (shapes i).chunkBytes →
    ∃ err, s.grow p.budget chunks fill = (.error err, s, p.budget)
  truncate : ∀ i s, p.stores i = some s → ∀ n,
    (s.truncate p.budget n).1.lists = s.lists.take n ∧
      (s.truncate p.budget n).2.charge ((s.size - n) * (shapes i).chunkBytes) = p.budget
  drop : ∀ i s, p.stores i = some s →
    (s.free p.budget).charge (s.size * (shapes i).chunkBytes) = p.budget

theorem Balanced.keepsLists (h : p.Balanced limit shapes) : p.KeepsLists limit shapes where
  limit_eq := h.limit_eq
  reserved_eq := by
    rw [h.held_eq]
    exact Finset.sum_congr rfl fun i _ => (Nat.mul_assoc _ _ _).symm
  reservations_eq := by
    intro i s hs
    rw [← (h.follows i s hs).chunkBytes_eq]
    exact (h.follows i s hs).wellFormed.reservations_eq
  size_of_mem := by
    intro i s hs
    rw [← (h.follows i s hs).length_eq]
    exact (h.follows i s hs).wellFormed.size_of_mem
  get?_eq := by
    intro i s hs c hc o ho
    obtain ⟨v, hv⟩ := (h.follows i s hs).exists_get? hc ho
    exact ⟨v, hv, ((h.follows i s hs).get?_eq c hc o ho).symm.trans hv⟩
  grow := by
    intro i s hs chunks fill hlist hbytes
    have hfollows := h.follows i s hs
    obtain ⟨result, heq, hresult⟩ := s.grow_eq_growth p.budget chunks fill
    rw [hfollows.chunkBytes_eq] at heq hresult
    refine ⟨_, result, h.isGreatest_growth hlist hbytes s.size, heq, ?_, hresult⟩
    rw [ChunkStore.lists_extend, hfollows.length_eq]
  grow_too_large := by
    intro i s hs chunks fill hlt htoo
    rw [← (h.follows i s hs).chunkBytes_eq] at htoo
    exact ChunkStore.grow_of_too_large hlt htoo p.budget fill
  truncate := by
    intro i s hs n
    have hfollows := h.follows i s hs
    have hheld := h.size_mul_le hs
    have hdropped : (s.size - n) * s.chunkBytes ≤ p.budget.reserved :=
      Nat.le_trans (Nat.mul_le_mul_right _ (Nat.sub_le _ _)) hheld
    obtain ⟨b, hb⟩ := Budget.exists_eq_charge hdropped
    refine ⟨s.lists_truncate _ n, ?_⟩
    rw [← hfollows.chunkBytes_eq, hb, hfollows.wellFormed.truncate_charge]
  drop := by
    intro i s hs
    have hfollows := h.follows i s hs
    obtain ⟨b, hb⟩ := Budget.exists_eq_charge (h.size_mul_le hs)
    have hgiven := hfollows.wellFormed.free_charge b
    rw [hfollows.wellFormed.allocatedBytes_eq] at hgiven
    rw [← hfollows.chunkBytes_eq, hb, hgiven]

/-! ### Every pool is balanced -/

variable [DecidableEq ι]

namespace Balanced

/-- A call does to the lists of the stores what it does to lists. -/
theorem lists_step (h : p.Balanced limit shapes) (c : PoolCall α) :
    (p.step c).lists = p.lists.step limit shapes c := by
  obtain ⟨i, call⟩ := c
  cases hs : p.stores i with
  | none =>
      have hnone : p.lists i = none := by
        rw [lists, hs]
        rfl
      simp only [step_of_none hs, ListPool.step, hnone]
  | some s =>
      have hsome : p.lists i = some s.lists := by
        rw [lists, hs]
        rfl
      rw [StorePool.lists_step hs, (h.follows i s hs).map_lists_perform, h.budget_eq]
      simp only [ListPool.step, hsome]

/-- Every call keeps the balance. -/
theorem step (h : p.Balanced limit shapes) (c : PoolCall α) :
    (p.step c).Balanced limit shapes := by
  obtain ⟨i, call⟩ := c
  cases hs : p.stores i with
  | none =>
      rw [step_of_none hs]
      exact h
  | some s =>
      have hfollows := h.follows i s hs
      have hsettles := hfollows.wellFormed.settles_perform (h.size_mul_le hs) call
      refine ⟨?_, ?_, ?_, ?_⟩
      · rw [budget_step hs]
        exact hsettles.limit_eq.trans h.limit_eq
      · -- The count and the sum change by the same bytes.
        have hcount := hsettles.reserved_add
        have hsum := p.lists.held_update shapes i ((call.perform s p.budget).1.map ChunkStore.lists)
        rw [h.reserved_eq, hfollows.chunkBytes_eq] at hcount
        rw [ChunkStore.length_map_lists, size_lists, size_of_some hs] at hsum
        rw [budget_step hs, StorePool.lists_step hs]
        omega
      · rw [budget_step hs]
        exact hsettles.reserved_le h.reserved_le
      · intro j s' hs'
        rw [stores_step hs] at hs'
        rw [log_step hs]
        by_cases hj : j = i
        · subst hj
          rw [Function.update_self] at hs'
          have hnext := hfollows.perform hs'
          rw [Function.update_self, hs']
          exact hnext
        · rw [Function.update_of_ne hj] at hs' ⊢
          exact h.follows j s' hs'

theorem run (h : p.Balanced limit shapes) (calls : List (PoolCall α)) :
    (p.run calls).Balanced limit shapes ∧
      (p.run calls).lists = p.lists.run limit shapes calls := by
  induction calls generalizing p with
  | nil => exact ⟨h, rfl⟩
  | cons c cs ih =>
      obtain ⟨hbalanced, hlists⟩ := ih (h.step c)
      rw [h.lists_step c] at hlists
      exact ⟨hbalanced, hlists⟩

end Balanced

/-- Whatever is called on stores that share a budget, in any order, they do what lists would do, and
the budget counts what they hold. -/
theorem refines_lists (limit : Option UInt64) (shapes : ι → StoreShape)
    (calls : List (PoolCall α)) :
    ((ofLimit α limit shapes).run calls).lists =
        ListPool.run limit shapes (fun _ => some []) calls ∧
      ((ofLimit α limit shapes).run calls).KeepsLists limit shapes := by
  obtain ⟨hbalanced, hlists⟩ := (balanced_ofLimit limit shapes).run calls
  exact ⟨hlists, hbalanced.keepsLists⟩

/-- Chunks of 16 bytes and a limit of 40. The second store asks for three chunks beside the one of
the first store and gets one, which is all that is held when the first store has given its chunk
back. -/
example : ((ofLimit (fun _ : Fin 2 => Int32) (some 40) fun _ => ⟨4, 4⟩).run
    [⟨0, .grow 1 7⟩, ⟨1, .grow 3 5⟩, ⟨0, .truncate 0⟩]).budget = ⟨some 40, 16⟩ := by decide

end StorePool

end GroupedExtrema
