import GroupedExtrema.Proofs.Json.Number

/-!
# Readers take values whole

A reader is given a text that starts with a value and goes on after it. `TakesWhole` says that what
comes after the value plays no part: the reader accepts the value there if it accepts it alone, makes
the same of it, and stops right behind it. The fields of a record can then be followed one by one
without the text around them. `ReadsAs` says in addition what is made of the value.
-/

namespace GroupedExtrema.Json

variable {α β : Type} {read : List Char → Result α} {v : List Char}

/-- A reader makes the same of a value alone as behind blanks and before something that ends it,
and leaves what is behind the value. -/
def TakesWhole (read : List Char → Result α) (v : List Char) : Prop :=
  ∀ ⦃a rest : List Char⦄ ⦃x : α⦄ ⦃r : List Char⦄, AllBlank a → EndsNumber rest →
    (read (a ++ (v ++ rest)) = .ok (x, r) ↔ read v = .ok (x, []) ∧ r = rest)

/-- A reader makes something of a value, alone as well as in a text. -/
def ReadsAs (read : List Char → Result α) (v : List Char) (x : α) : Prop :=
  ∀ ⦃a rest : List Char⦄, AllBlank a → EndsNumber rest → read (a ++ (v ++ rest)) = .ok (x, rest)

theorem ReadsAs.alone {x : α} (h : ReadsAs read v x) : read v = .ok (x, []) := by
  simpa using h allBlank_nil endsNumber_nil

theorem ReadsAs.takesWhole {x : α} (h : ReadsAs read v x) : TakesWhole read v := by
  intro a rest y r ha hrest
  rw [h ha hrest, h.alone]
  simp [eq_comm]

/-- It is enough to know when a reader accepts the value in a text, if that does not depend on the
text. -/
theorem takesWhole_of_iff {P : α → Prop}
    (h : ∀ {a rest : List Char} {x : α} {r : List Char}, AllBlank a → EndsNumber rest →
      (read (a ++ (v ++ rest)) = .ok (x, r) ↔ P x ∧ r = rest)) : TakesWhole read v := by
  intro a rest x r ha hrest
  have halone : read v = .ok (x, []) ↔ P x := by
    simpa using h (x := x) (r := []) allBlank_nil endsNumber_nil
  rw [h ha hrest, halone]

/-- A reader that goes on from what another one has read, without reading more itself. -/
theorem TakesWhole.of_eq_ok_iff {read' : List Char → Result β} {Q : α → β → Prop}
    (h : TakesWhole read v)
    (hread' : ∀ {cs r : List Char} {y : β},
      read' cs = .ok (y, r) ↔ ∃ x, read cs = .ok (x, r) ∧ Q x y) : TakesWhole read' v := by
  intro a rest y r ha hrest
  simp only [hread', h ha hrest]
  constructor
  · rintro ⟨x, ⟨hx, hr⟩, hy⟩
    exact ⟨⟨x, hx, hy⟩, hr⟩
  · rintro ⟨⟨x, hx, hy⟩, hr⟩
    exact ⟨x, ⟨hx, hr⟩, hy⟩

/-- The whole of a text may be one value with blanks around it. -/
theorem ReadsAs.readText {x : α} (h : ReadsAs read v x) : readText read (String.ofList v) = .ok x := by
  simp [Json.readText, h.alone, skipBlank]

/-! ## Integers -/

theorem isNumber_writeInt (i : Int) : IsNumber (writeInt i) := by
  cases i with
  | ofNat n => exact .unsigned (isWhole_writeNat n).isMagnitude
  | negSucc m => exact .negative (isWhole_writeNat (m + 1)).isMagnitude

theorem isValue_writeInt (i : Int) : IsValue (writeInt i) := .number (isNumber_writeInt i)

theorem isValue_writeNat (n : Nat) : IsValue (writeNat n) := isValue_writeInt n

/-- Of all values only the one that `writeInt` writes is read as an integer. -/
theorem readInteger_append_eq_ok_iff {t : IntegerRange} (hv : IsValue v) {a rest r : List Char}
    {i : Int} (ha : AllBlank a) (hrest : EndsNumber rest) :
    readInteger t (a ++ (v ++ rest)) = .ok (i, r) ↔
      (v = writeInt i ∧ FitsWord i ∧ t.least ≤ i ∧ i ≤ t.greatest) ∧ r = rest := by
  rw [readInteger_eq_ok_iff, skipBlank_append ha, hv.skipBlank_append]
  constructor
  · rintro ⟨⟨heq, hr, hfits⟩, hrange⟩
    -- the text starts with the value and with the integer, and at most one value starts a text
    have hskip : skipValue (writeInt i ++ r) = .ok r :=
      skipValue_append allBlank_nil (isValue_writeInt i) hr
    obtain ⟨rfl, rfl⟩ := hv.eq_of_append_eq hrest hskip heq
    exact ⟨⟨rfl, hfits, hrange⟩, rfl⟩
  · rintro ⟨⟨rfl, hfits, hrange⟩, rfl⟩
    exact ⟨⟨rfl, hrest, hfits⟩, hrange⟩

theorem takesWhole_readInteger (t : IntegerRange) (hv : IsValue v) :
    TakesWhole (readInteger t) v :=
  takesWhole_of_iff (readInteger_append_eq_ok_iff hv)

theorem readInteger_eq_ok_iff_of_isValue {t : IntegerRange} (hv : IsValue v) {i : Int} :
    readInteger t v = .ok (i, []) ↔
      v = writeInt i ∧ FitsWord i ∧ t.least ≤ i ∧ i ≤ t.greatest := by
  simpa using readInteger_append_eq_ok_iff (t := t) hv (i := i) (r := []) allBlank_nil
    endsNumber_nil

/-! ## Optional integers -/

theorem mem_valueWords_null : ['n', 'u', 'l', 'l'] ∈ valueWords := by simp [valueWords]

theorem expectWord_eq_ok_iff {w cs r : List Char} : expectWord w cs = .ok r ↔ cs = w ++ r := by
  induction w generalizing cs with
  | nil => simp [expectWord]
  | cons c w ih =>
    cases cs with
    | nil => simp [expectWord]
    | cons d cs =>
      simp only [expectWord]
      split <;> simp_all

theorem readOptionalInteger_eq_ok_none_iff {t : IntegerRange} {cs r : List Char} :
    readOptionalInteger t cs = .ok (none, r) ↔ skipBlank cs = ['n', 'u', 'l', 'l'] ++ r := by
  unfold readOptionalInteger
  split
  · next r' hcs =>
    have hword : expectWord ['u', 'l', 'l'] r' = .ok r ↔ 'n' :: r' = ['n', 'u', 'l', 'l'] ++ r := by
      simp [expectWord_eq_ok_iff]
    rw [hcs, ← hword]
    split
    · next h => simp [h]
    · next h => simp [h]
  · next hcs =>
    refine iff_of_false ?_ fun h => hcs _ h
    split <;> simp

theorem readOptionalInteger_eq_ok_some_iff {t : IntegerRange} {cs r : List Char} {i : Int} :
    readOptionalInteger t cs = .ok (some i, r) ↔ readInteger t cs = .ok (i, r) := by
  unfold readOptionalInteger
  split
  · next hcs =>
    have hfail : readInteger t cs ≠ .ok (i, r) := by
      intro h
      have hstart := (readInteger_eq_ok_iff.mp h).1.1
      rw [hcs] at hstart
      exact absurd (startsNumber_of_writeInt hstart) (by decide)
    refine iff_of_false ?_ hfail
    split <;> simp
  · split
    · next h => simp [h]
    · next h => simp [h]

/-- `null` is read as no integer, every other value as an integer or not at all. -/
theorem takesWhole_readOptionalInteger (t : IntegerRange) (hv : IsValue v) :
    TakesWhole (readOptionalInteger t) v := by
  refine takesWhole_of_iff (P := fun
    | none => v = ['n', 'u', 'l', 'l']
    | some i => readInteger t v = .ok (i, [])) ?_
  intro a rest n r ha hrest
  cases n with
  | some i => rw [readOptionalInteger_eq_ok_some_iff, takesWhole_readInteger t hv ha hrest]
  | none =>
    rw [readOptionalInteger_eq_ok_none_iff, skipBlank_append ha, hv.skipBlank_append]
    constructor
    · intro heq
      have hskip := skipValue_word mem_valueWords_null r
      obtain ⟨rfl, rfl⟩ := hv.eq_of_append_eq hrest hskip heq
      exact ⟨rfl, rfl⟩
    · rintro ⟨rfl, rfl⟩
      rfl

theorem readOptionalInteger_eq_ok_iff_of_isValue {t : IntegerRange} {n : Option Int}
    (hv : IsValue v) :
    readOptionalInteger t v = .ok (n, []) ↔
      match n with
      | none => v = ['n', 'u', 'l', 'l']
      | some i => v = writeInt i ∧ FitsWord i ∧ t.least ≤ i ∧ i ≤ t.greatest := by
  cases n with
  | some i => rw [readOptionalInteger_eq_ok_some_iff, readInteger_eq_ok_iff_of_isValue hv]
  | none =>
    have hblank : skipBlank v = v := by simpa using hv.skipBlank_append []
    rw [readOptionalInteger_eq_ok_none_iff, hblank]
    rfl

end GroupedExtrema.Json
