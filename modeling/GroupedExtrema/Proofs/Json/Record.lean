import GroupedExtrema.Json.Record
import GroupedExtrema.Proofs.Json.Reader

/-!
# Records are read member by member

What a record reader makes of the text of a map depends on its members only: on their keys, with the
escapes resolved, and on what the fields make of the values. `RecordReader.Enter` is one member,
`RecordReader.EnterAll` a list of them, and `readMembers_eq_ok_iff` says that the loop over the text
does neither more nor less.
-/

namespace GroupedExtrema.Json

/-! ## Keys -/

/-- What stands before a member: nothing before the first one, a comma before the others. -/
inductive IsLead : Bool → List Char → Prop
  | first : IsLead true []
  | next {b : List Char} : AllBlank b → IsLead false (b ++ [','])

theorem readKey_append {t key : List Char} (h : Spells t key) (rest : List Char) :
    readKey ('"' :: (t ++ '"' :: rest)) = .ok (key, rest) :=
  readString_append h rest

theorem nextKey_append {first : Bool} {lead a t key : List Char} (hlead : IsLead first lead)
    (ha : AllBlank a) (ht : Spells t key) (rest : List Char) :
    nextKey first (lead ++ (a ++ '"' :: (t ++ '"' :: rest))) = .ok (some key, rest) := by
  have hquote : skipBlank (a ++ '"' :: (t ++ '"' :: rest)) = '"' :: (t ++ '"' :: rest) :=
    skipBlank_append_cons ha (by decide) _
  cases hlead with
  | first => simp [nextKey, hquote, readKey_append ht, member]
  | next hb =>
    rw [List.append_assoc, List.cons_append, List.nil_append, nextKey,
      skipBlank_append_cons hb (by decide)]
    simp [hquote, readKey_append ht, member]

theorem nextKey_end {b : List Char} (hb : AllBlank b) (first : Bool) (rest : List Char) :
    nextKey first (b ++ '}' :: rest) = .ok (none, '}' :: rest) := by
  rw [nextKey, skipBlank_append_cons hb (by decide)]
  rfl

theorem endMap_append {b : List Char} (hb : AllBlank b) (rest : List Char) :
    endMap (b ++ '}' :: rest) = .ok rest := by
  rw [endMap, skipBlank_append_cons hb (by decide)]
  rfl

namespace RecordReader

variable {σ : Type} (R : RecordReader σ)

/-! ## One member -/

/-- What a member does to a partial record: a field that has not been read is read, a field that
has been read is refused, and everything else is left out. -/
def Enter (s : σ) (m : Member) (s' : σ) : Prop :=
  match R.index? m.key with
  | none => s' = s
  | some i => R.has s i = false ∧ R.read i s m.value = .ok (s', [])

/-- What members do to a partial record one after another. -/
def EnterAll : σ → List Member → σ → Prop
  | s, [], s' => s' = s
  | s, m :: ms, s' => ∃ s₁, R.Enter s m s₁ ∧ EnterAll s₁ ms s'

/-- The value of a member is read without regard to the text around it, if it is a field's. -/
def Takes (m : Member) : Prop :=
  ∀ i, R.index? m.key = some i → ∀ s, TakesWhole (R.read i s) m.value

variable {R}

theorem enter_unknown {s s' : σ} {m : Member} (h : R.index? m.key = none) :
    R.Enter s m s' ↔ s' = s := by
  simp only [Enter, h]

theorem enter_field {s s' : σ} {m : Member} {i : Nat} (h : R.index? m.key = some i) :
    R.Enter s m s' ↔ R.has s i = false ∧ R.read i s m.value = .ok (s', []) := by
  simp only [Enter, h]

theorem readMembers_end {first : Bool} {s : σ} {cs r : List Char}
    (h : nextKey first cs = .ok (none, r)) : R.readMembers first s cs = .ok (s, r) := by
  rw [readMembers]
  split <;> simp_all

theorem readMembers_unknown {first : Bool} {s : σ} {cs key r v rest : List Char}
    (hkey : nextKey first cs = .ok (some key, r)) (hindex : R.index? key = none)
    (hcolon : expectColon r = .ok v) (hskip : skipValue v = .ok rest) :
    R.readMembers first s cs = R.readMembers false s rest := by
  rw [readMembers]
  split
  · next h => simp [hkey] at h
  · next h => simp [hkey] at h
  · next h =>
    rw [hkey] at h
    cases h
    simp only [hindex]
    split
    · next h => simp [hcolon] at h
    · next h =>
      rw [hcolon] at h
      cases h
      split
      · next h => simp [hskip] at h
      · next h =>
        rw [hskip] at h
        cases h
        rfl

theorem readMembers_field {first : Bool} {s : σ} {p : σ × List Char} {i : Nat}
    {cs key r v : List Char} (hkey : nextKey first cs = .ok (some key, r))
    (hindex : R.index? key = some i) (hcolon : expectColon r = .ok v) :
    R.readMembers first s cs = .ok p ↔
      R.has s i = false ∧
        ∃ s₁ rest, R.read i s v = .ok (s₁, rest) ∧ R.readMembers false s₁ rest = .ok p := by
  rw [readMembers]
  split
  · next h => simp [hkey] at h
  · next h => simp [hkey] at h
  · next h =>
    rw [hkey] at h
    cases h
    simp only [hindex]
    split
    · next hhas => simp [hhas]
    · next hhas =>
      split
      · next h => simp [hcolon] at h
      · next h =>
        rw [hcolon] at h
        cases h
        split
        · next h => simp [h]
        · next h =>
          simp only [hhas, h, Except.ok.injEq, Prod.mk.injEq, true_and]
          constructor
          · exact fun hp => ⟨_, _, ⟨rfl, rfl⟩, hp⟩
          · rintro ⟨_, _, ⟨rfl, rfl⟩, hp⟩
            exact hp

/-- A member in its place: its key is found, its value is read or skipped to its end, and the loop
goes on behind it. -/
theorem readMembers_member {first : Bool} {lead t : List Char} {m : Member}
    (hlead : IsLead first lead) (hm : IsMember m t) (htakes : R.Takes m) {rest : List Char}
    (hrest : EndsNumber rest) :
    ∃ d, AllBlank d ∧ ∀ {s : σ} {p : σ × List Char},
      (R.readMembers first s (lead ++ (t ++ rest)) = .ok p ↔
        ∃ s₁, R.Enter s m s₁ ∧ R.readMembers false s₁ (d ++ rest) = .ok p) := by
  obtain @⟨a, t, key, b, c, v, d, ha, ht, hb, hc, hv, hd⟩ := hm
  refine ⟨d, hd, fun {s p} => ?_⟩
  have hend : EndsNumber (d ++ rest) := hrest.append_of_allBlank hd
  have hkey := nextKey_append hlead ha ht (b ++ ':' :: (c ++ (v ++ (d ++ rest))))
  have hcolon := expectColon_append hb (c ++ (v ++ (d ++ rest)))
  have htext : lead ++ (a ++ '"' :: (t ++ '"' :: (b ++ ':' :: (c ++ (v ++ d)))) ++ rest) =
      lead ++ (a ++ '"' :: (t ++ '"' :: (b ++ ':' :: (c ++ (v ++ (d ++ rest)))))) := by
    simp only [List.append_assoc, List.cons_append]
  rw [htext]
  cases hindex : R.index? key with
  | none =>
    rw [readMembers_unknown hkey hindex hcolon (skipValue_append hc hv hend)]
    simp only [enter_unknown (m := ⟨key, v⟩) hindex, exists_eq_left]
  | some i =>
    rw [readMembers_field hkey hindex hcolon]
    simp only [enter_field (m := ⟨key, v⟩) hindex, htakes i hindex s hc hend]
    constructor
    · rintro ⟨hhas, s₁, _, ⟨hread, rfl⟩, hp⟩
      exact ⟨s₁, ⟨hhas, hread⟩, hp⟩
    · rintro ⟨s₁, ⟨hhas, hread⟩, hp⟩
      exact ⟨hhas, s₁, _, ⟨hread, rfl⟩, hp⟩

/-! ## All members -/

/-- The loop over the members of a map stops at the end of the map, with what the members have done
to the partial record. The induction is over the members; between two of them stands the comma that
the later one is read with. -/
theorem readMembers_eq_ok_iff {ms : List Member} {t : List Char} (hms : IsMembers ms t)
    (htakes : ∀ m ∈ ms, R.Takes m) {first : Bool} {lead : List Char} (hlead : IsLead first lead)
    {s s' : σ} {rest r : List Char} :
    R.readMembers first s (lead ++ (t ++ '}' :: rest)) = .ok (s', r) ↔
      R.EnterAll s ms s' ∧ r = '}' :: rest := by
  induction hms generalizing first lead s with
  | @last m t hm =>
    have hrest : EndsNumber ('}' :: rest) := by simp [continuesNumber]
    obtain ⟨d, hd, hmember⟩ := readMembers_member hlead hm (htakes m (by simp)) hrest
    simp only [hmember, readMembers_end (nextKey_end hd false rest), EnterAll, Except.ok.injEq,
      Prod.mk.injEq]
    constructor
    · rintro ⟨s₁, h, rfl, rfl⟩
      exact ⟨⟨s₁, h, rfl⟩, rfl⟩
    · rintro ⟨⟨s₁, h, rfl⟩, rfl⟩
      exact ⟨s', h, rfl, rfl⟩
  | @more m ms t ts hm _ ih =>
    have hrest : EndsNumber (',' :: (ts ++ '}' :: rest)) := by simp [continuesNumber]
    obtain ⟨d, hd, hmember⟩ := readMembers_member hlead hm (htakes m (by simp)) hrest
    -- behind the first member the loop stands before the comma, which leads the next one
    have hnext {s₁ : σ} :
        R.readMembers false s₁ (d ++ ',' :: (ts ++ '}' :: rest)) = .ok (s', r) ↔
          R.EnterAll s₁ ms s' ∧ r = '}' :: rest := by
      have h := ih (fun m hm => htakes m (by simp [hm])) (.next hd) (s := s₁)
      rwa [List.append_assoc] at h
    rw [List.append_assoc, List.cons_append, hmember]
    simp only [hnext, EnterAll]
    constructor
    · rintro ⟨s₁, h, hall, hr⟩
      exact ⟨⟨s₁, h, hall⟩, hr⟩
    · rintro ⟨⟨s₁, h, hall⟩, hr⟩
      exact ⟨s₁, h, hall, hr⟩

/-- The members of a map from its opening brace on. -/
theorem readMembers_map_eq_ok_iff {ms : List Member} {t : List Char} (ht : IsMap ms t)
    (htakes : ∀ m ∈ ms, R.Takes m) (rest : List Char) :
    ∃ body, t ++ rest = '{' :: body ∧ ∀ {s' : σ} {r : List Char},
      (R.readMembers true R.start body = .ok (s', r) ↔
        R.EnterAll R.start ms s' ∧ r = '}' :: rest) := by
  cases ht with
  | @empty b hb =>
    refine ⟨b ++ '}' :: rest, by simp, fun {s' r} => ?_⟩
    simp [readMembers_end (nextKey_end hb true rest), EnterAll, eq_comm]
  | @members _ t hms =>
    exact ⟨t ++ '}' :: rest, by simp, readMembers_eq_ok_iff hms htakes .first⟩

/-- A record is read from a map by entering the members of the map into the partial record without
fields. -/
theorem readRecord_eq_ok_iff {ρ : Type} {ofMap : σ → Except Error ρ}
    {ofSequence : Nat → σ → Except Error ρ} {ms : List Member} {t : List Char} (ht : IsMap ms t)
    (htakes : ∀ m ∈ ms, R.Takes m) {a rest r : List Char} (ha : AllBlank a) {x : ρ} :
    R.readRecord ofMap ofSequence (a ++ (t ++ rest)) = .ok (x, r) ↔
      (∃ s, R.EnterAll R.start ms s ∧ ofMap s = .ok x) ∧ r = rest := by
  obtain ⟨body, hbody, hmembers⟩ := readMembers_map_eq_ok_iff ht htakes rest
  have hend : endMap ('}' :: rest) = .ok rest := endMap_append allBlank_nil rest
  rw [hbody, readRecord, skipBlank_append_cons ha (by decide)]
  constructor
  · intro h
    cases hread : R.readMembers true R.start body with
    | error e => simp [hread] at h
    | ok p =>
      obtain ⟨s, r'⟩ := p
      obtain ⟨hall, rfl⟩ := hmembers.mp hread
      cases hof : ofMap s with
      | error e => simp [hread, hof] at h
      | ok y =>
        simp only [hread, hof, hend, Except.ok.injEq, Prod.mk.injEq] at h
        obtain ⟨rfl, rfl⟩ := h
        exact ⟨⟨s, hall, hof⟩, rfl⟩
  · rintro ⟨⟨s, hall, hof⟩, rfl⟩
    simp only [hmembers.mpr ⟨hall, rfl⟩, hof, hend]

/-- A record is read from a whole text if that is a map and its members make up the record. -/
theorem readText_record_eq_ok_iff {ρ : Type} {ofMap : σ → Except Error ρ}
    {ofSequence : Nat → σ → Except Error ρ} {ms : List Member} {text : String}
    (h : IsObject ms text.toList) (htakes : ∀ m ∈ ms, R.Takes m) {x : ρ} :
    readText (R.readRecord ofMap ofSequence) text = .ok x ↔
      ∃ s, R.EnterAll R.start ms s ∧ ofMap s = .ok x := by
  obtain ⟨a, t, b, ha, ht, hb, htext⟩ : ∃ a t b, AllBlank a ∧ IsMap ms t ∧ AllBlank b ∧
      text.toList = a ++ (t ++ b) := by
    generalize text.toList = cs at h
    obtain ⟨ha, ht, hb⟩ := h
    exact ⟨_, _, _, ha, ht, hb, rfl⟩
  have hread {y : ρ} {r : List Char} :
      R.readRecord ofMap ofSequence (a ++ (t ++ b)) = .ok (y, r) ↔
        (∃ s, R.EnterAll R.start ms s ∧ ofMap s = .ok y) ∧ r = b :=
    readRecord_eq_ok_iff ht htakes ha
  rw [readText, htext]
  constructor
  · intro hx
    cases hrecord : R.readRecord ofMap ofSequence (a ++ (t ++ b)) with
    | error e => simp [hrecord] at hx
    | ok p =>
      obtain ⟨hs, hr⟩ := hread.mp hrecord
      simp only [hrecord, hr, skipBlank_of_allBlank hb] at hx
      cases hx
      exact hs
  · intro hs
    simp [hread.mpr ⟨hs, rfl⟩, skipBlank_of_allBlank hb]

end RecordReader

end GroupedExtrema.Json
