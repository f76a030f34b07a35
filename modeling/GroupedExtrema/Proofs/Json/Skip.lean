import GroupedExtrema.Proofs.Json.Grammar

/-!
# Values are read and skipped to their end

The readers of strings and the one that skips values agree with the grammar: of a text that starts
with a string or a value they take exactly that, whatever comes after it. Only a number needs a
condition on what comes after, since it could go on.
-/

namespace GroupedExtrema.Json

/-! ## Strings -/

theorem readHexQuad_cons {a b c d : Char} {n : Nat} (h : hexQuad? a b c d = some n)
    (r : List Char) : readHexQuad (a :: b :: c :: d :: r) = .ok (n, r) := by
  simp [readHexQuad, h]

theorem simpleEscape?_u : simpleEscape? 'u' = none := rfl

theorem skipEscape_simple {c d : Char} (h : simpleEscape? c = some d) (r : List Char) :
    skipEscape (c :: r) = .ok r := by
  unfold skipEscape
  split
  · contradiction
  · next heq =>
    cases heq
    simp [simpleEscape?_u] at h
  · next heq =>
    cases heq
    simp [h]

theorem readEscape_simple {c d : Char} (h : simpleEscape? c = some d) (r : List Char) :
    readEscape (c :: r) = .ok (d, r) := by
  unfold readEscape
  split
  · contradiction
  · next heq =>
    cases heq
    simp [simpleEscape?_u] at h
  · next heq =>
    cases heq
    simp [h]

theorem skipString_escape {r rest : List Char} (h : skipEscape r = .ok rest) :
    skipString ('\\' :: r) = skipString rest := by
  rw [skipString]
  split
  · simp_all
  · simp_all

theorem skipString_plain {c : Char} (h : IsPlain c) (r : List Char) :
    skipString (c :: r) = skipString r := by
  obtain ⟨hquote, hescape, hcontrol⟩ := h
  rw [skipString]
  · simp [hcontrol]
  · exact hquote
  · exact hescape

/-- A string is skipped up to its closing quote. -/
theorem skipString_append {t : List Char} (h : IsStringBody t) (rest : List Char) :
    skipString (t ++ '"' :: rest) = .ok rest := by
  induction h with
  | nil => rw [List.nil_append, skipString]
  | plain hc _ ih => rw [List.cons_append, skipString_plain hc, ih]
  | escape hc _ ih =>
    rw [List.cons_append, List.cons_append, skipString_escape (skipEscape_simple hc _), ih]
  | @numbered a b c d n t hn _ ih =>
    have hskip : skipEscape ('u' :: a :: b :: c :: d :: (t ++ '"' :: rest))
        = .ok (t ++ '"' :: rest) := by
      simp [skipEscape, readHexQuad_cons hn]
    simp only [List.cons_append]
    rw [skipString_escape hskip, ih]

theorem readString_escape {r rest : List Char} {c : Char} (h : readEscape r = .ok (c, rest)) :
    readString ('\\' :: r) = (readString rest).map fun (s, r) => (c :: s, r) := by
  rw [readString]
  split
  · simp_all
  · next heq =>
    rw [h] at heq
    cases heq
    rfl

theorem readString_plain {c : Char} (h : IsPlain c) (r : List Char) :
    readString (c :: r) = (readString r).map fun (s, r) => (c :: s, r) := by
  obtain ⟨hquote, hescape, hcontrol⟩ := h
  rw [readString]
  · simp [hcontrol]
  · exact hquote
  · exact hescape

/-- A string is read as the characters that it spells, up to its closing quote. -/
theorem readString_append {t s : List Char} (h : Spells t s) (rest : List Char) :
    readString (t ++ '"' :: rest) = .ok (s, rest) := by
  induction h with
  | nil => rw [List.nil_append, readString]
  | plain hc _ ih => rw [List.cons_append, readString_plain hc, ih]; rfl
  | escape hc _ ih =>
    rw [List.cons_append, List.cons_append, readString_escape (readEscape_simple hc _), ih]
    rfl
  | @numbered a b c d n t s hn hhigh hlow _ ih =>
    have hread : readEscape ('u' :: a :: b :: c :: d :: (t ++ '"' :: rest))
        = .ok (Char.ofNat n, t ++ '"' :: rest) := by
      simp [readEscape, readHexQuad_cons hn, hhigh, hlow]
    simp only [List.cons_append]
    rw [readString_escape hread, ih]
    rfl
  | @pair a b c d a' b' c' d' high low t s hhigh hhigh' hlow hlow' _ ih =>
    have hne : isLowSurrogate high = false := by
      simp only [isHighSurrogate, isLowSurrogate, Bool.and_eq_true, Bool.and_eq_false_iff,
        decide_eq_true_eq, decide_eq_false_iff_not] at hhigh' ⊢
      omega
    have hread : readEscape ('u' :: a :: b :: c :: d :: '\\' :: 'u' :: a' :: b' :: c' :: d' ::
        (t ++ '"' :: rest)) = .ok (surrogatePair high low, t ++ '"' :: rest) := by
      simp [readEscape, readHexQuad_cons hhigh, hne, hhigh', readLowSurrogate,
        readHexQuad_cons hlow, hlow']
    simp only [List.cons_append]
    rw [readString_escape hread, ih]
    rfl

/-! ## Numbers -/

/-- Digits end where something comes that is no digit. -/
def EndsDigits (rest : List Char) : Prop := ∀ c r, rest = c :: r → c.isDigit = false

theorem EndsNumber.endsDigits {rest : List Char} (h : EndsNumber rest) : EndsDigits rest := by
  intro c r hrest
  have := h c r hrest
  simp only [continuesNumber, Bool.or_eq_false_iff] at this
  exact this.1.1.1

theorem endsDigits_cons {c : Char} (h : c.isDigit = false) (r : List Char) :
    EndsDigits (c :: r) := by
  rintro c' r' heq
  cases heq
  exact h

theorem takeWhile_isDigit_eq_nil {rest : List Char} (h : EndsDigits rest) :
    rest.takeWhile Char.isDigit = [] := by
  cases rest with
  | nil => rfl
  | cons c r => simp [h c r rfl]

theorem takeWhile_isDigit_append {ds rest : List Char} (hds : ∀ d ∈ ds, d.isDigit = true)
    (h : EndsDigits rest) : (ds ++ rest).takeWhile Char.isDigit = ds := by
  rw [List.takeWhile_append_of_pos hds, takeWhile_isDigit_eq_nil h, List.append_nil]

theorem dropWhile_isDigit_append {ds rest : List Char} (hds : ∀ d ∈ ds, d.isDigit = true)
    (h : EndsDigits rest) : (ds ++ rest).dropWhile Char.isDigit = rest := by
  rw [List.dropWhile_append_of_pos hds]
  cases rest with
  | nil => rfl
  | cons c r => simp [h c r rfl]

theorem skipDigits_append {ds rest : List Char} (hds : IsDigits ds) (h : EndsDigits rest) :
    skipDigits (ds ++ rest) = .ok rest := by
  have hne : ds.isEmpty = false := by simp [hds.1]
  rw [skipDigits, takeWhile_isDigit_append hds.2 h, dropWhile_isDigit_append hds.2 h, hne]
  rfl

theorem skipExponent_append {sign ds rest : List Char} (hsign : IsExponentSign sign)
    (hds : IsDigits ds) (h : EndsDigits rest) : skipExponent (sign ++ (ds ++ rest)) = .ok rest := by
  have hskip := skipDigits_append hds h
  cases hsign with
  | plus => exact hskip
  | minus => exact hskip
  | absent =>
    obtain ⟨d, ds', rfl⟩ := List.exists_cons_of_ne_nil hds.1
    have hd : d.isDigit = true := hds.2 d (by simp)
    rw [List.nil_append, List.cons_append, skipExponent]
    · exact hskip
    · rintro r heq
      cases heq
      exact absurd hd (by decide)
    · rintro r heq
      cases heq
      exact absurd hd (by decide)

theorem skipFraction_append {ds exponent rest : List Char} (hds : IsDigits ds)
    (hexponent : IsExponent exponent) (h : EndsNumber rest) :
    skipFraction (ds ++ (exponent ++ rest)) = .ok rest := by
  cases hexponent with
  | absent =>
    rw [List.nil_append, skipFraction, skipDigits_append hds h.endsDigits]
    split
    · next heq => cases heq; exact absurd h (by simp [continuesNumber])
    · next heq => cases heq; exact absurd h (by simp [continuesNumber])
    · rfl
  | @present e sign ds' he hsign hds' =>
    have hskip := skipExponent_append hsign hds' h.endsDigits
    rw [List.cons_append, List.append_assoc, skipFraction]
    rcases he with rfl | rfl
    · rw [skipDigits_append hds (endsDigits_cons (by decide) _)]
      exact hskip
    · rw [skipDigits_append hds (endsDigits_cons (by decide) _)]
      exact hskip

/-- A whole part is not refused: what is left to do depends on what follows it. -/
theorem skipMagnitude_eq {ds rest : List Char} (hds : IsWhole ds) (h : EndsDigits rest) :
    skipMagnitude (ds ++ rest) =
      match (.ok rest : Except Error (List Char)) with
      | .ok ('.' :: r) => skipFraction r
      | .ok ('e' :: r) | .ok ('E' :: r) => skipExponent r
      | result => result := by
  rw [skipMagnitude, takeWhile_isDigit_append hds.1.2 h, skipDigits_append hds.1 h]
  split
  · exact absurd (hds.2 _ rfl) (by simp)
  · rfl

theorem skipMagnitude_append {t rest : List Char} (ht : IsMagnitude t) (h : EndsNumber rest) :
    skipMagnitude (t ++ rest) = .ok rest := by
  obtain ⟨hwhole, hfraction, hexponent⟩ := ht
  cases hfraction with
  | present hds =>
    rw [List.append_assoc, List.cons_append, List.cons_append, List.append_assoc,
      skipMagnitude_eq hwhole (endsDigits_cons (by decide) _)]
    exact skipFraction_append hds hexponent h
  | absent =>
    rw [List.nil_append, List.append_assoc]
    cases hexponent with
    | absent =>
      rw [List.nil_append, skipMagnitude_eq hwhole h.endsDigits]
      split
      · next heq => cases heq; exact absurd h (by simp [continuesNumber])
      · next heq => cases heq; exact absurd h (by simp [continuesNumber])
      · next heq => cases heq; exact absurd h (by simp [continuesNumber])
      · rfl
    | present he hsign hds =>
      have hskip := skipExponent_append hsign hds h.endsDigits
      rw [List.cons_append, List.append_assoc]
      rcases he with rfl | rfl
      · rw [skipMagnitude_eq hwhole (endsDigits_cons (by decide) _)]
        exact hskip
      · rw [skipMagnitude_eq hwhole (endsDigits_cons (by decide) _)]
        exact hskip

/-! ## Values without parts -/

theorem ne_of_isDigit {d c : Char} (hd : d.isDigit = true) (hc : c.isDigit = false) : d ≠ c := by
  rintro rfl
  simp [hd] at hc

theorem isBlank_of_isDigit {d : Char} (hd : d.isDigit = true) : isBlank d = false := by
  simp only [isBlank, Bool.or_eq_false_iff, beq_eq_false_iff_ne, ne_eq]
  exact ⟨⟨⟨ne_of_isDigit hd rfl, ne_of_isDigit hd rfl⟩, ne_of_isDigit hd rfl⟩, ne_of_isDigit hd rfl⟩

theorem IsMagnitude.exists_digit {t : List Char} (h : IsMagnitude t) :
    ∃ d r, t = d :: r ∧ d.isDigit = true := by
  obtain ⟨hwhole, -, -⟩ := h
  obtain ⟨d, r, rfl⟩ := List.exists_cons_of_ne_nil hwhole.1.1
  exact ⟨d, _, rfl, hwhole.1.2 d (by simp)⟩

theorem skipAtom_digit {d : Char} (hd : d.isDigit = true) (r : List Char) :
    skipAtom (d :: r) = skipMagnitude (d :: r) := by
  rw [skipAtom, if_pos hd]
  all_goals exact ne_of_isDigit hd rfl

theorem skipAtom_number {t rest : List Char} (ht : IsNumber t) (h : EndsNumber rest) :
    skipAtom (t ++ rest) = .ok rest := by
  cases ht with
  | negative ht => exact skipMagnitude_append ht h
  | unsigned ht =>
    obtain ⟨d, r, rfl, hd⟩ := ht.exists_digit
    rw [List.cons_append, skipAtom_digit hd]
    exact skipMagnitude_append ht h

theorem skipAtom_word {w : List Char} (hw : w ∈ valueWords) (rest : List Char) :
    skipAtom (w ++ rest) = .ok rest := by
  simp only [valueWords, List.mem_cons, List.not_mem_nil, or_false] at hw
  rcases hw with rfl | rfl | rfl <;> simp [skipAtom, expectWord]

theorem skipAtom_string {t : List Char} (ht : IsStringBody t) (rest : List Char) :
    skipAtom ('"' :: (t ++ ['"']) ++ rest) = .ok rest := by
  simpa [skipAtom] using skipString_append ht rest

/-! ## One step through nested values -/

/-- The character that a value or a part of a container starts with, behind its blanks. -/
structure Starts (c : Char) : Prop where
  not_blank : isBlank c = false
  ne_bracket : c ≠ ']'
  ne_brace : c ≠ '}'

theorem Starts.ne_close {c : Char} (h : Starts c) (k : Container) : c ≠ k.close := by
  cases k with
  | sequence => exact h.ne_bracket
  | map => exact h.ne_brace

theorem starts_of_isDigit {d : Char} (hd : d.isDigit = true) : Starts d :=
  ⟨isBlank_of_isDigit hd, ne_of_isDigit hd rfl, ne_of_isDigit hd rfl⟩

theorem Container.starts_opening (k : Container) : Starts k.opening := by
  cases k <;> exact ⟨rfl, by decide, by decide⟩

theorem IsValue.exists_cons {v : List Char} (h : IsValue v) : ∃ c r, v = c :: r ∧ Starts c := by
  cases h with
  | word hw =>
    simp only [valueWords, List.mem_cons, List.not_mem_nil, or_false] at hw
    rcases hw with rfl | rfl | rfl <;> exact ⟨_, _, rfl, rfl, by decide, by decide⟩
  | number ht =>
    cases ht with
    | negative ht => exact ⟨'-', _, rfl, rfl, by decide, by decide⟩
    | unsigned ht =>
      obtain ⟨d, r, rfl, hd⟩ := ht.exists_digit
      exact ⟨d, r, rfl, starts_of_isDigit hd⟩
  | string _ => exact ⟨'"', _, rfl, rfl, by decide, by decide⟩
  | @empty k _ _ => exact ⟨k.opening, _, rfl, k.starts_opening⟩
  | @container k _ _ => exact ⟨k.opening, _, rfl, k.starts_opening⟩

theorem IsValue.skipBlank_append {v : List Char} (h : IsValue v) (rest : List Char) :
    skipBlank (v ++ rest) = v ++ rest := by
  obtain ⟨c, r, rfl, hc⟩ := h.exists_cons
  exact skipBlank_cons hc.not_blank _

/-- No part of a container starts with the end of one, so an open container that has parts is never
taken for an empty one. -/
theorem IsPhrase.exists_blank_append_cons {p : Phrase} {t : List Char} (h : IsPhrase p t) :
    ∃ a c r, t = a ++ c :: r ∧ AllBlank a ∧ Starts c := by
  have hvalue {v : List Char} (hv : IsValue v) :
      ∃ a c r, v = a ++ c :: r ∧ AllBlank a ∧ Starts c := by
    obtain ⟨c, r, rfl, hc⟩ := hv.exists_cons
    exact ⟨[], c, r, rfl, allBlank_nil, hc⟩
  induction h with
  | word hw => exact hvalue (.word hw)
  | number ht => exact hvalue (.number ht)
  | string ht => exact hvalue (.string ht)
  | empty hb => exact hvalue (.empty hb)
  | container ht _ => exact hvalue (.container ht)
  | @item k label a v b hlabel ha hv _ _ =>
    cases hlabel with
    | map ha' _ _ =>
      exact ⟨_, '"', _, by rw [List.append_assoc, List.cons_append], ha', rfl, by decide, by decide⟩
    | sequence =>
      obtain ⟨c, r, rfl, hc⟩ := IsValue.exists_cons hv
      exact ⟨a, c, r ++ b, rfl, ha, hc⟩
  | last _ ih => exact ih
  | @more k t ts _ _ ih _ =>
    obtain ⟨a, c, r, rfl, ha, hc⟩ := ih
    exact ⟨a, c, r ++ ',' :: ts, by simp, ha, hc⟩

@[simp] theorem skipFrom_nil_closed (cs : List Char) : skipFrom [] .closed cs = .ok cs := by
  rw [skipFrom]

/-- Before a value only the text behind the blanks matters. -/
theorem skipFrom_value (stack : List Container) (cs : List Char) :
    skipFrom stack .value cs =
      match skipBlank cs with
      | [] => .error .truncated
      | '[' :: r => skipFrom stack (.opened .sequence) r
      | '{' :: r => skipFrom stack (.opened .map) r
      | c :: r =>
        match skipAtom (c :: r) with
        | .error e => .error e
        | .ok rest => skipFrom stack .closed rest := by
  rw [skipFrom]
  split
  · next heq => simp [heq]
  · next heq => simp [heq]
  · next heq => simp [heq]
  · next heq =>
    simp only [heq]
    split <;> simp_all

theorem skipFrom_opening {k : Container} {cs r : List Char} (hcs : skipBlank cs = k.opening :: r)
    (stack : List Container) : skipFrom stack .value cs = skipFrom stack (.opened k) r := by
  rw [skipFrom_value, hcs]
  cases k <;> rfl

theorem skipFrom_atom {c : Char} {cs r rest : List Char} (hcs : skipBlank cs = c :: r)
    (hc : ∀ k : Container, c ≠ k.opening) (h : skipAtom (c :: r) = .ok rest)
    (stack : List Container) : skipFrom stack .value cs = skipFrom stack .closed rest := by
  rw [skipFrom_value, hcs]
  split
  · contradiction
  · next heq => exact absurd (List.cons.inj heq).1 (hc .sequence)
  · next heq => exact absurd (List.cons.inj heq).1 (hc .map)
  · next heq =>
    rw [← heq, h]

theorem skipFrom_opened_close {k : Container} {cs r : List Char}
    (hcs : skipBlank cs = k.close :: r) (stack : List Container) :
    skipFrom stack (.opened k) cs = skipFrom stack .closed r := by
  rw [skipFrom]
  split <;> simp_all

theorem skipFrom_closed_close {k : Container} {cs r : List Char}
    (hcs : skipBlank cs = k.close :: r) (stack : List Container) :
    skipFrom (k :: stack) .closed cs = skipFrom stack .closed r := by
  have hcomma : k.close ≠ ',' := by cases k <;> decide
  rw [skipFrom]
  split
  · simp_all
  · next heq => exact absurd (List.cons.inj (hcs.symm.trans heq)).1 hcomma
  · next heq =>
    obtain ⟨rfl, rfl⟩ := List.cons.inj (hcs.symm.trans heq)
    simp

/-- Passes over a part of a container, its label first. -/
def skipItem (stack : List Container) (k : Container) (cs : List Char) :
    Except Error (List Char) :=
  match k.skipLabel cs with
  | .error e => .error e
  | .ok rest => skipFrom (k :: stack) .value rest

theorem skipFrom_opened_item {k : Container} {c : Char} {cs r : List Char}
    (hcs : skipBlank cs = c :: r) (hc : c ≠ k.close) (stack : List Container) :
    skipFrom stack (.opened k) cs = skipItem stack k (c :: r) := by
  rw [skipFrom, skipItem]
  split <;> simp_all
  split <;> simp_all

theorem skipFrom_closed_comma {k : Container} {cs r : List Char}
    (hcs : skipBlank cs = ',' :: r) (stack : List Container) :
    skipFrom (k :: stack) .closed cs = skipItem stack k r := by
  rw [skipFrom, skipItem]
  split <;> simp_all
  split <;> simp_all

/-! ## Nested values -/

theorem expectColon_append {b : List Char} (hb : AllBlank b) (cs : List Char) :
    expectColon (b ++ ':' :: cs) = .ok cs := by
  rw [expectColon, skipBlank_append_cons hb (by decide)]
  rfl

/-- A label is passed over up to and including its colon. -/
theorem Container.skipLabel_append {k : Container} {label : List Char} (h : k.IsLabel label)
    (cs : List Char) : k.skipLabel (label ++ cs) = .ok cs := by
  cases h with
  | sequence => rfl
  | @map a key b ha hkey hb =>
    simp only [List.append_assoc, List.cons_append, List.nil_append, skipLabel,
      skipBlank_append_cons ha (by decide : isBlank '"' = false), skipString_append hkey,
      expectColon_append hb]

/-- What skipping does with a text of each kind: it ends right behind a value, at the blanks behind a
part of a container, and right behind the end of a container whose parts these are. -/
def Skips : Phrase → List Char → Prop
  | .value, t => ∀ ⦃a rest : List Char⦄ (stack : List Container), AllBlank a → EndsNumber rest →
      skipFrom stack .value (a ++ (t ++ rest)) = skipFrom stack .closed rest
  | .item k, t => ∃ b, AllBlank b ∧ ∀ ⦃rest : List Char⦄ (stack : List Container),
      EndsNumber rest →
      skipItem stack k (t ++ rest) = skipFrom (k :: stack) .closed (b ++ rest)
  | .items k, t => ∀ (rest : List Char) (stack : List Container),
      skipItem stack k (t ++ k.close :: rest) = skipFrom stack .closed rest

theorem Container.isBlank_close (k : Container) : isBlank k.close = false := by cases k <;> rfl

theorem Container.isBlank_opening (k : Container) : isBlank k.opening = false := by cases k <;> rfl

theorem Container.endsNumber_close (k : Container) (rest : List Char) :
    EndsNumber (k.close :: rest) := by
  cases k <;> simp [close, continuesNumber]

/-- A value without parts starts with a character that opens no container. -/
def StartsAtom (t : List Char) : Prop :=
  ∃ c r, t = c :: r ∧ isBlank c = false ∧ ∀ k : Container, c ≠ k.opening

theorem skipFrom_atom_append {t a rest : List Char} (ht : StartsAtom t) (ha : AllBlank a)
    (hskip : skipAtom (t ++ rest) = .ok rest) (stack : List Container) :
    skipFrom stack .value (a ++ (t ++ rest)) = skipFrom stack .closed rest := by
  obtain ⟨c, r, rfl, hblank, hopening⟩ := ht
  exact skipFrom_atom (skipBlank_append_cons ha hblank _) hopening hskip stack

theorem startsAtom_word {w : List Char} (hw : w ∈ valueWords) : StartsAtom w := by
  simp only [valueWords, List.mem_cons, List.not_mem_nil, or_false] at hw
  rcases hw with rfl | rfl | rfl <;> exact ⟨_, _, rfl, rfl, fun k => by cases k <;> decide⟩

theorem startsAtom_number {t : List Char} (ht : IsNumber t) : StartsAtom t := by
  cases ht with
  | negative ht => exact ⟨'-', _, rfl, rfl, fun k => by cases k <;> decide⟩
  | unsigned ht =>
    obtain ⟨d, r, rfl, hd⟩ := ht.exists_digit
    exact ⟨d, r, rfl, isBlank_of_isDigit hd, fun k => ne_of_isDigit hd (by cases k <;> rfl)⟩

theorem startsAtom_string (t : List Char) : StartsAtom ('"' :: t) :=
  ⟨'"', t, rfl, rfl, fun k => by cases k <;> decide⟩

theorem skips_empty (k : Container) {b : List Char} (hb : AllBlank b) :
    Skips .value (k.opening :: (b ++ [k.close])) := by
  intro a rest stack ha _
  rw [List.cons_append, List.append_assoc,
    skipFrom_opening (skipBlank_append_cons ha k.isBlank_opening _)]
  exact skipFrom_opened_close (skipBlank_append_cons hb k.isBlank_close _) stack

/-- The parts of a container are looked for behind the blanks after its opening character. A label
passes over them itself, and so does a value. -/
theorem skipItem_append {a : List Char} (ha : AllBlank a) (stack : List Container) (k : Container)
    (cs : List Char) : skipItem stack k (a ++ cs) = skipItem stack k cs := by
  cases k with
  | sequence => simp only [skipItem, Container.skipLabel, skipFrom_value, skipBlank_append ha]
  | map => simp only [skipItem, Container.skipLabel, skipBlank_append ha]

/-- Whatever the grammar derives is skipped to its end, and not further. The induction is over the
grammar; the open containers are the ones around the text, so they are left as they are. -/
theorem IsPhrase.skips {p : Phrase} {t : List Char} (h : IsPhrase p t) : Skips p t := by
  induction h with
  | word hw =>
    intro a rest stack ha _
    exact skipFrom_atom_append (startsAtom_word hw) ha (skipAtom_word hw rest) stack
  | number ht =>
    intro a rest stack ha hrest
    exact skipFrom_atom_append (startsAtom_number ht) ha (skipAtom_number ht hrest) stack
  | string ht =>
    intro a rest stack ha _
    exact skipFrom_atom_append (startsAtom_string _) ha (skipAtom_string ht rest) stack
  | @empty k _ hb => exact skips_empty k hb
  | @container k t h ih =>
    intro a rest stack ha _
    -- the container is not taken for an empty one, so its first part is looked for
    obtain ⟨b, c, r, rfl, hb, hc⟩ := h.exists_blank_append_cons
    have hopened : skipBlank (b ++ c :: r ++ k.close :: rest) = c :: (r ++ k.close :: rest) := by
      rw [List.append_assoc, List.cons_append, skipBlank_append_cons hb hc.not_blank]
    calc skipFrom stack .value (a ++ (k.opening :: (b ++ c :: r ++ [k.close]) ++ rest))
        = skipFrom stack (.opened k) (b ++ c :: r ++ k.close :: rest) := by
          rw [List.cons_append, skipFrom_opening (skipBlank_append_cons ha k.isBlank_opening _),
            List.append_assoc _ [k.close]]
          rfl
      _ = skipItem stack k (c :: (r ++ k.close :: rest)) :=
          skipFrom_opened_item hopened (hc.ne_close k) stack
      _ = skipItem stack k (b ++ c :: r ++ k.close :: rest) := by
          rw [List.append_assoc, skipItem_append hb, List.cons_append]
      _ = skipFrom stack .closed rest := ih rest stack
  | @item k label a v b hlabel ha _ hb ih =>
    refine ⟨b, hb, fun {rest} stack hrest => ?_⟩
    -- a number among the parts ends at the latest at the blanks or the comma behind it
    rw [skipItem, List.append_assoc, Container.skipLabel_append hlabel, List.append_assoc,
      List.append_assoc]
    exact ih (k :: stack) ha (hrest.append_of_allBlank hb)
  | @last k t _ ih =>
    intro rest stack
    obtain ⟨b, hb, hitem⟩ := ih
    rw [hitem stack (k.endsNumber_close rest)]
    exact skipFrom_closed_close (skipBlank_append_cons hb k.isBlank_close _) stack
  | @more k t ts _ _ ih ihs =>
    intro rest stack
    obtain ⟨b, hb, hitem⟩ := ih
    rw [List.append_assoc, List.cons_append, hitem stack (by simp [continuesNumber]),
      skipFrom_closed_comma (skipBlank_append_cons hb (by decide) _)]
    exact ihs rest stack

/-- A value is skipped to its end. -/
theorem skipValue_append {a v rest : List Char} (ha : AllBlank a) (hv : IsValue v)
    (hrest : EndsNumber rest) : skipValue (a ++ (v ++ rest)) = .ok rest := by
  rw [skipValue, hv.skips [] ha hrest, skipFrom_nil_closed]

/-- A word needs nothing to end it. -/
theorem skipValue_word {w : List Char} (hw : w ∈ valueWords) (rest : List Char) :
    skipValue (w ++ rest) = .ok rest := by
  have h := skipFrom_atom_append (startsAtom_word hw) allBlank_nil (skipAtom_word hw rest) []
  rwa [List.nil_append, skipFrom_nil_closed] at h

/-- A text starts with at most one value: skipping finds its end. -/
theorem IsValue.eq_of_append_eq {v w rest r : List Char} (hv : IsValue v) (hrest : EndsNumber rest)
    (hw : skipValue (w ++ r) = .ok r) (h : v ++ rest = w ++ r) : v = w ∧ rest = r := by
  have hskip : skipValue (v ++ rest) = .ok rest := skipValue_append allBlank_nil hv hrest
  rw [h, hw] at hskip
  obtain rfl := Except.ok.inj hskip
  exact ⟨List.append_cancel_right h, rfl⟩

end GroupedExtrema.Json
