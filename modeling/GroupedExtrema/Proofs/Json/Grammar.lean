import GroupedExtrema.Json.Skip

/-!
# The grammar of JSON

What a JSON value is, as a predicate on texts that knows nothing of the readers. A text derives from
the grammar whatever the blanks between its tokens are and however deeply it is nested, and its
strings may hold surrogates that form no pair. What a string stands for is a relation of its own,
`Spells`, which only holds where they do.

For the map at the top the grammar keeps what the readers look at: the members in order, each with
its key after the escapes have been resolved and with the text of its value.
-/

namespace GroupedExtrema.Json

/-! ## Blanks -/

/-- Nothing but blanks. -/
def AllBlank (cs : List Char) : Prop := ∀ c ∈ cs, isBlank c = true

instance (cs : List Char) : Decidable (AllBlank cs) := List.decidableBAll _ cs

@[simp] theorem allBlank_nil : AllBlank [] := by simp [AllBlank]

theorem skipBlank_append {b : List Char} (hb : AllBlank b) (cs : List Char) :
    skipBlank (b ++ cs) = skipBlank cs :=
  List.dropWhile_append_of_pos hb

theorem skipBlank_of_allBlank {b : List Char} (hb : AllBlank b) : skipBlank b = [] := by
  have h := skipBlank_append hb []
  rwa [List.append_nil] at h

theorem skipBlank_cons {c : Char} (h : isBlank c = false) (cs : List Char) :
    skipBlank (c :: cs) = c :: cs := by
  simp [skipBlank, h]

theorem skipBlank_append_cons {b : List Char} (hb : AllBlank b) {c : Char} (h : isBlank c = false)
    (cs : List Char) : skipBlank (b ++ c :: cs) = c :: cs := by
  rw [skipBlank_append hb, skipBlank_cons h]

/-! ## Strings -/

/-- A character that stands for itself between quotes. -/
def IsPlain (c : Char) : Prop := c ≠ '"' ∧ c ≠ '\\' ∧ isControl c = false

instance (c : Char) : Decidable (IsPlain c) :=
  inferInstanceAs (Decidable (c ≠ '"' ∧ c ≠ '\\' ∧ isControl c = false))

/-- A text that stands for itself between quotes. -/
def ArePlain (cs : List Char) : Prop := ∀ c ∈ cs, IsPlain c

instance (cs : List Char) : Decidable (ArePlain cs) := List.decidableBAll _ cs

/-- What may stand between the quotes of a string. -/
inductive IsStringBody : List Char → Prop
  | nil : IsStringBody []
  | plain {c : Char} {t : List Char} : IsPlain c → IsStringBody t → IsStringBody (c :: t)
  | escape {c d : Char} {t : List Char} :
      simpleEscape? c = some d → IsStringBody t → IsStringBody ('\\' :: c :: t)
  | numbered {a b c d : Char} {n : Nat} {t : List Char} :
      hexQuad? a b c d = some n → IsStringBody t →
      IsStringBody ('\\' :: 'u' :: a :: b :: c :: d :: t)

/-- The text between the quotes of a string spells these characters. Characters beyond the first
plane may be written as two escapes by number, a surrogate pair. -/
inductive Spells : List Char → List Char → Prop
  | nil : Spells [] []
  | plain {c : Char} {t s : List Char} : IsPlain c → Spells t s → Spells (c :: t) (c :: s)
  | escape {c d : Char} {t s : List Char} :
      simpleEscape? c = some d → Spells t s → Spells ('\\' :: c :: t) (d :: s)
  | numbered {a b c d : Char} {n : Nat} {t s : List Char} :
      hexQuad? a b c d = some n → isHighSurrogate n = false → isLowSurrogate n = false →
      Spells t s → Spells ('\\' :: 'u' :: a :: b :: c :: d :: t) (Char.ofNat n :: s)
  | pair {a b c d a' b' c' d' : Char} {high low : Nat} {t s : List Char} :
      hexQuad? a b c d = some high → isHighSurrogate high = true →
      hexQuad? a' b' c' d' = some low → isLowSurrogate low = true → Spells t s →
      Spells ('\\' :: 'u' :: a :: b :: c :: d :: '\\' :: 'u' :: a' :: b' :: c' :: d' :: t)
        (surrogatePair high low :: s)

theorem Spells.isStringBody {t s : List Char} (h : Spells t s) : IsStringBody t := by
  induction h with
  | nil => exact .nil
  | plain hc _ ih => exact .plain hc ih
  | escape hc _ ih => exact .escape hc ih
  | numbered hn _ _ _ ih => exact .numbered hn ih
  | pair hhigh _ hlow _ _ ih => exact .numbered hhigh (.numbered hlow ih)

/-- Characters that need no escape spell themselves. -/
theorem spells_self {s : List Char} (h : ArePlain s) : Spells s s := by
  induction s with
  | nil => exact .nil
  | cons c s ih =>
    rw [ArePlain, List.forall_mem_cons] at h
    exact .plain h.1 (ih h.2)

/-! ## Numbers -/

/-- Decimal digits, at least one. -/
def IsDigits (ds : List Char) : Prop := ds ≠ [] ∧ ∀ d ∈ ds, d.isDigit = true

/-- The digits before the point. A zero stands alone there. -/
def IsWhole (ds : List Char) : Prop := IsDigits ds ∧ ∀ r, ds = '0' :: r → r = []

/-- The part of a number from its point on, if it has one. -/
inductive IsFraction : List Char → Prop
  | absent : IsFraction []
  | present {ds : List Char} : IsDigits ds → IsFraction ('.' :: ds)

/-- The sign of an exponent, if it has one. -/
inductive IsExponentSign : List Char → Prop
  | absent : IsExponentSign []
  | plus : IsExponentSign ['+']
  | minus : IsExponentSign ['-']

/-- The part of a number from the letter of its exponent on, if it has one. -/
inductive IsExponent : List Char → Prop
  | absent : IsExponent []
  | present {e : Char} {sign ds : List Char} :
      e = 'e' ∨ e = 'E' → IsExponentSign sign → IsDigits ds → IsExponent (e :: (sign ++ ds))

/-- A number without its sign. -/
inductive IsMagnitude : List Char → Prop
  | mk {whole fraction exponent : List Char} :
      IsWhole whole → IsFraction fraction → IsExponent exponent →
      IsMagnitude (whole ++ (fraction ++ exponent))

/-- A number. -/
inductive IsNumber : List Char → Prop
  | unsigned {t : List Char} : IsMagnitude t → IsNumber t
  | negative {t : List Char} : IsMagnitude t → IsNumber ('-' :: t)

/-! ## Values -/

/-- The values that are words. -/
def valueWords : List (List Char) :=
  [['n', 'u', 'l', 'l'], ['t', 'r', 'u', 'e'], ['f', 'a', 'l', 's', 'e']]

/-- The character that a container starts with. -/
def Container.opening : Container → Char
  | sequence => '['
  | map => '{'

/-- What stands before a value in a container: nothing in a sequence, a key and a colon in a map. -/
inductive Container.IsLabel : Container → List Char → Prop
  | sequence : IsLabel sequence []
  | map {a key b : List Char} : AllBlank a → IsStringBody key → AllBlank b →
      IsLabel map (a ++ '"' :: (key ++ '"' :: (b ++ [':'])))

/-- The kinds of text that contain each other. -/
inductive Phrase where
  | value
  /-- A part of a container with the blanks around it. -/
  | item (k : Container)
  /-- All parts of a container, at least one, with commas between them. -/
  | items (k : Container)

/-- The texts of a kind. -/
inductive IsPhrase : Phrase → List Char → Prop
  | word {w : List Char} : w ∈ valueWords → IsPhrase .value w
  | number {t : List Char} : IsNumber t → IsPhrase .value t
  | string {t : List Char} : IsStringBody t → IsPhrase .value ('"' :: (t ++ ['"']))
  | empty {k : Container} {b : List Char} :
      AllBlank b → IsPhrase .value (k.opening :: (b ++ [k.close]))
  | container {k : Container} {t : List Char} :
      IsPhrase (.items k) t → IsPhrase .value (k.opening :: (t ++ [k.close]))
  | item {k : Container} {label a v b : List Char} :
      k.IsLabel label → AllBlank a → IsPhrase .value v → AllBlank b →
      IsPhrase (.item k) (label ++ (a ++ (v ++ b)))
  | last {k : Container} {t : List Char} : IsPhrase (.item k) t → IsPhrase (.items k) t
  | more {k : Container} {t ts : List Char} :
      IsPhrase (.item k) t → IsPhrase (.items k) ts → IsPhrase (.items k) (t ++ ',' :: ts)

/-- The text of a value, without blanks around it. -/
def IsValue (t : List Char) : Prop := IsPhrase .value t

/-! ## Maps with their members -/

/-- A member of a map: its key after the escapes have been resolved, and the text of its value. -/
structure Member where
  key : List Char
  value : List Char
deriving DecidableEq

/-- The text of a member with the blanks around it. -/
inductive IsMember : Member → List Char → Prop
  | mk {a t key b c v d : List Char} :
      AllBlank a → Spells t key → AllBlank b → AllBlank c → IsValue v → AllBlank d →
      IsMember ⟨key, v⟩ (a ++ '"' :: (t ++ '"' :: (b ++ ':' :: (c ++ (v ++ d)))))

/-- The text of members, at least one, with commas between them. -/
inductive IsMembers : List Member → List Char → Prop
  | last {m : Member} {t : List Char} : IsMember m t → IsMembers [m] t
  | more {m : Member} {ms : List Member} {t ts : List Char} :
      IsMember m t → IsMembers ms ts → IsMembers (m :: ms) (t ++ ',' :: ts)

/-- The text of a map with these members. -/
inductive IsMap : List Member → List Char → Prop
  | empty {b : List Char} : AllBlank b → IsMap [] ('{' :: (b ++ ['}']))
  | members {ms : List Member} {t : List Char} : IsMembers ms t → IsMap ms ('{' :: (t ++ ['}']))

/-- A whole text that is a map with these members, with blanks around it. -/
inductive IsObject : List Member → List Char → Prop
  | mk {ms : List Member} {a t b : List Char} :
      AllBlank a → IsMap ms t → AllBlank b → IsObject ms (a ++ (t ++ b))

theorem IsMember.isPhrase {m : Member} {t : List Char} (h : IsMember m t) :
    IsPhrase (.item .map) t := by
  obtain @⟨a, t, key, b, c, v, d, ha, ht, hb, hc, hv, hd⟩ := h
  simpa using IsPhrase.item (.map ha ht.isStringBody hb) hc hv hd

theorem IsMembers.isPhrase {ms : List Member} {t : List Char} (h : IsMembers ms t) :
    IsPhrase (.items .map) t := by
  induction h with
  | last hm => exact .last hm.isPhrase
  | more hm _ ih => exact .more hm.isPhrase ih

/-- A map with its members is a value like any other. -/
theorem IsMap.isValue {ms : List Member} {t : List Char} (h : IsMap ms t) : IsValue t := by
  cases h with
  | empty hb => exact IsPhrase.empty (k := .map) hb
  | members hms => exact IsPhrase.container (k := .map) hms.isPhrase

theorem IsMember.isValue {m : Member} {t : List Char} (h : IsMember m t) : IsValue m.value := by
  obtain ⟨_, _, _, _, hv, _⟩ := h
  exact hv

theorem IsMembers.isValue {ms : List Member} {t : List Char} (h : IsMembers ms t) :
    ∀ m ∈ ms, IsValue m.value := by
  induction h with
  | last hm => simpa using hm.isValue
  | more hm _ ih => exact List.forall_mem_cons.mpr ⟨hm.isValue, ih⟩

theorem IsObject.isValue {ms : List Member} {t : List Char} (h : IsObject ms t) :
    ∀ m ∈ ms, IsValue m.value := by
  obtain ⟨-, ht, -⟩ := h
  cases ht with
  | empty _ => simp
  | members hms => exact hms.isValue

/-- The values of the members with a key, in order. -/
def valuesOf (key : String) (ms : List Member) : List (List Char) :=
  (ms.filter fun m => m.key == key.toList).map (·.value)

@[simp] theorem valuesOf_nil (key : String) : valuesOf key [] = [] := rfl

theorem valuesOf_cons_self {key : String} {m : Member} (h : m.key = key.toList)
    (ms : List Member) : valuesOf key (m :: ms) = m.value :: valuesOf key ms := by
  simp [valuesOf, h]

theorem valuesOf_cons_of_ne {key : String} {m : Member} (h : m.key ≠ key.toList)
    (ms : List Member) : valuesOf key (m :: ms) = valuesOf key ms := by
  simp [valuesOf, h]

theorem valuesOf_perm {key : String} {ms ms' : List Member} (h : ms.Perm ms') :
    (valuesOf key ms).Perm (valuesOf key ms') :=
  (h.filter _).map _

/-! ## Where values end -/

/-- Could a number that ends before this character go on with it? -/
def continuesNumber (c : Char) : Bool := c.isDigit || c == '.' || c == 'e' || c == 'E'

/-- What is left behind a number, so that the number ends there and not later. -/
def EndsNumber (rest : List Char) : Prop := ∀ c r, rest = c :: r → continuesNumber c = false

@[simp] theorem endsNumber_nil : EndsNumber [] := nofun

@[simp] theorem endsNumber_cons {c : Char} {r : List Char} :
    EndsNumber (c :: r) ↔ continuesNumber c = false := by
  simp [EndsNumber]

theorem EndsNumber.append_of_allBlank {b rest : List Char} (hb : AllBlank b)
    (h : EndsNumber rest) : EndsNumber (b ++ rest) := by
  cases b with
  | nil => exact h
  | cons c b =>
    have hc : isBlank c = true := hb c (by simp)
    simp only [isBlank, Bool.or_eq_true, beq_iff_eq] at hc
    rw [List.cons_append, endsNumber_cons]
    rcases hc with ((rfl | rfl) | rfl) | rfl <;> decide

end GroupedExtrema.Json
