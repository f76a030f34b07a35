import GroupedExtrema.Proofs.SlotTable

/-!
# When growing succeeds

A store can grow exactly if neither the list of its chunks nor a single chunk is larger than an
allocation may be and the budget has room for all missing chunks. It does not matter that chunks are
reserved one by one: a budget with room for the last one has had room for the others.

A table grows its two regions one after the other, the second one within what the first one has left
of the budget, so it can grow exactly if there is room for the missing chunks of both. If it cannot,
it is as before, wherever the failure came from, and so is the budget. The budget may hold bytes of
any other owners; nothing here asks what they are.
-/

namespace GroupedExtrema

namespace Budget

/-- Is there room for further bytes? -/
def Affords (b : Budget) (bytes : Nat) : Prop := b.reserved + bytes ≤ b.ceiling

variable {b : Budget} {m n : Nat}

theorem affords_charge : (b.charge m).Affords n ↔ b.Affords (m + n) := by
  unfold Affords
  rw [← Nat.add_assoc]
  exact Iff.rfl

theorem Affords.mono (h : b.Affords n) (hle : m ≤ n) : b.Affords m :=
  Nat.le_trans (Nat.add_le_add_left hle b.reserved) h

theorem reserve_of_affords (h : b.Affords n) : b.reserve n = .ok (⟨n⟩, b.charge n) :=
  if_pos h

theorem reserve_of_not_affords (h : ¬ b.Affords n) : ∃ e, b.reserve n = .error e :=
  ⟨_, if_neg h⟩

end Budget

namespace ChunkStore

variable {α : Type}

/-! ### Stores -/

/-- Is there room for so many more chunks of the store? -/
structure Admits (s : ChunkStore α) (budget : Budget) (n : Nat) : Prop where
  chunkBytes_le : s.chunkBytes ≤ maxAllocation
  affords : budget.Affords (n * s.chunkBytes)

/-- One more chunk fits, or there is an error. -/
theorem addChunk_of_admits {s : ChunkStore α} {budget : Budget} (h : s.Admits budget 1) (fill : α) :
    s.addChunk budget fill = (.ok (s.extend 1 fill), budget.charge s.chunkBytes) := by
  have haffords := h.affords
  rw [Nat.one_mul] at haffords
  simp only [addChunk, Budget.reserve_of_affords haffords, if_pos h.chunkBytes_le]
  rfl

@[inherit_doc addChunk_of_admits]
theorem addChunk_of_not_admits {s : ChunkStore α} {budget : Budget} (h : ¬ s.Admits budget 1)
    (fill : α) : ∃ e, s.addChunk budget fill = (.error e, budget) := by
  unfold addChunk
  by_cases haffords : budget.Affords s.chunkBytes
  · have hbytes : ¬ s.chunkBytes ≤ maxAllocation := fun hle =>
      h ⟨hle, by rwa [Nat.one_mul]⟩
    simp only [Budget.reserve_of_affords haffords, if_neg hbytes]
    exact ⟨_, congrArg (Prod.mk _) (budget.release_charge s.chunkBytes)⟩
  · obtain ⟨e, he⟩ := Budget.reserve_of_not_affords haffords
    rw [he]
    exact ⟨e, rfl⟩

/-- There is room for a chunk and further ones if there is room for it and then for the others. -/
theorem admits_succ_iff {s : ChunkStore α} {budget : Budget} {n : Nat} (fill : α) :
    s.Admits budget (n + 1) ↔ s.Admits budget 1 ∧
      (n = 0 ∨ (s.extend 1 fill).Admits (budget.charge s.chunkBytes) n) := by
  have hsplit : (n + 1) * s.chunkBytes = s.chunkBytes + n * s.chunkBytes := by
    rw [Nat.succ_mul, Nat.add_comm]
  constructor
  · rintro ⟨hbytes, haffords⟩
    rw [hsplit] at haffords
    refine ⟨⟨hbytes, haffords.mono (by omega)⟩, Or.inr ⟨hbytes, ?_⟩⟩
    exact Budget.affords_charge.mpr haffords
  · rintro ⟨hone, rfl | hrest⟩
    · exact hone
    · refine ⟨hone.chunkBytes_le, ?_⟩
      rw [hsplit]
      exact Budget.affords_charge.mp hrest.affords

/-- All chunks are added exactly if there is room for all of them. -/
theorem addChunks_ok_iff (n : Nat) (s : ChunkStore α) (budget : Budget) (fill : α) :
    (addChunks n s budget fill).1 = .ok () ↔ n = 0 ∨ s.Admits budget n := by
  induction n generalizing s budget with
  | zero => exact iff_of_true rfl (Or.inl rfl)
  | succ n ih =>
      rw [or_iff_right (Nat.add_one_ne_zero n), admits_succ_iff fill]
      by_cases hone : s.Admits budget 1
      · rw [addChunks, addChunk_of_admits hone, and_iff_right hone]
        exact ih _ _
      · obtain ⟨e, he⟩ := addChunk_of_not_admits hone fill
        rw [addChunks, he]
        exact iff_of_false (by simp) fun h => hone h.1

/-- A store that lacks chunks gets them exactly if the list of chunks is no larger than an
allocation may be and there is room for all of them. -/
theorem grow_ok_iff {s : ChunkStore α} {chunks : Nat} (hlt : s.size < chunks) (budget : Budget)
    (fill : α) :
    (∃ added, (s.grow budget chunks fill).1 = .ok added) ↔
      chunks * chunkEntryBytes ≤ maxAllocation ∧ s.Admits budget (chunks - s.size) := by
  unfold grow
  rw [if_neg (Nat.not_le.mpr hlt)]
  by_cases hlist : maxAllocation < chunks * chunkEntryBytes
  · rw [if_pos hlist]
    exact iff_of_false (by simp) fun h => absurd h.1 (Nat.not_le.mpr hlist)
  · have hadd := addChunks_ok_iff (chunks - s.size) s budget fill
    rw [or_iff_right (Nat.sub_ne_zero_of_lt hlt)] at hadd
    rw [if_neg hlist, ← hadd, and_iff_right (Nat.not_lt.mp hlist)]
    split
    case h_1 grown budget' heq => simp [heq]
    case h_2 e grown budget' heq => simp [heq]

/-- A store that has got its missing chunks has paid for them. -/
theorem budget_of_grow_ok {s : ChunkStore α} {budget : Budget} {chunks : Nat} {fill : α}
    (h : ∃ added, (s.grow budget chunks fill).1 = .ok added) :
    (s.grow budget chunks fill).2.2 = budget.charge ((chunks - s.size) * s.chunkBytes) := by
  obtain ⟨m, -, r, heq, hm⟩ := s.grow_eq budget chunks fill
  rw [heq] at h ⊢
  rw [hm h]

end ChunkStore

namespace SlotTable

variable {α : Type}

/-! ### Tables -/

/-- A table that lacks chunks grows exactly if its value region does and then, within what that has
left of the budget, its validity region. -/
theorem ensureChunks_ok_iff_grow {t : SlotTable α} {chunks : Nat} (hlt : t.size < chunks)
    (budget : Budget) :
    (t.ensureChunks budget chunks).1 = .ok () ↔
      (∃ added, (t.cells.grow budget chunks t.identity).1 = .ok added) ∧
        ∃ added, (t.validity.words.grow (t.cells.grow budget chunks t.identity).2.2 chunks 0).1 =
          .ok added := by
  rw [ensureChunks, if_neg (Nat.not_le.mpr hlt)]
  rcases t.cells.grow budget chunks t.identity with ⟨⟨e⟩ | ⟨added⟩, cells, budget'⟩
  · simp
  · simp only [ValidityMap.grow]
    rcases t.validity.words.grow budget' chunks 0 with ⟨⟨e⟩ | ⟨added'⟩, words, budget''⟩
    · simp
    · simp

/-- A table grows exactly if it has the chunks already, or if neither list nor chunk of either
region is larger than an allocation may be and the budget has room for the missing chunks of
both. -/
theorem WellFormed.ensureChunks_ok_iff {t : SlotTable α} (h : t.WellFormed) (budget : Budget)
    (chunks : Nat) :
    (t.ensureChunks budget chunks).1 = .ok () ↔ chunks ≤ t.size ∨
      budget.Affords ((chunks - t.size) * t.chunkBytes) ∧
        chunks * chunkEntryBytes ≤ maxAllocation ∧ t.cells.chunkBytes ≤ maxAllocation ∧
        t.validity.words.chunkBytes ≤ maxAllocation := by
  by_cases hle : chunks ≤ t.size
  · rw [ensureChunks, if_pos hle]
    exact iff_of_true rfl (Or.inl hle)
  · have hlt : t.size < chunks := Nat.not_le.mp hle
    have hcells := ChunkStore.grow_ok_iff hlt budget t.identity
    have hwords := ChunkStore.grow_ok_iff (h.size_words.symm ▸ hlt)
      (budget.charge ((chunks - t.size) * t.cells.chunkBytes)) 0
    rw [h.size_words] at hwords
    rw [or_iff_right hle, ensureChunks_ok_iff_grow hlt, chunkBytes, Nat.mul_add]
    constructor
    · rintro ⟨hgrown, hgrown'⟩
      rw [ChunkStore.budget_of_grow_ok hgrown] at hgrown'
      obtain ⟨hlist, hadmits⟩ := hcells.mp hgrown
      obtain ⟨-, hadmits'⟩ := hwords.mp hgrown'
      exact ⟨Budget.affords_charge.mp hadmits'.affords, hlist, hadmits.chunkBytes_le,
        hadmits'.chunkBytes_le⟩
    · rintro ⟨haffords, hlist, hbytes, hbytes'⟩
      -- Room for both is room for the first, and then for the second in what is left.
      have hgrown := hcells.mpr ⟨hlist, hbytes, haffords.mono (Nat.le_add_right _ _)⟩
      refine ⟨hgrown, ?_⟩
      rw [ChunkStore.budget_of_grow_ok hgrown]
      exact hwords.mpr ⟨hlist, hbytes', Budget.affords_charge.mpr haffords⟩

end SlotTable

end GroupedExtrema
