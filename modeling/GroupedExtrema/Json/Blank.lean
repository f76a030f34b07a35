import GroupedExtrema.Json.Error

/-!
# Blanks and fixed words

The parts of JSON that carry no value: blanks between tokens, and the letters of `null`, `true` and
`false`.
-/

namespace GroupedExtrema.Json

/-- Space, tab, line feed and carriage return. -/
def isBlank (c : Char) : Bool := c == ' ' || c == '\t' || c == '\n' || c == '\r'

/-- The text from its first character on that is not blank. -/
def skipBlank (cs : List Char) : List Char := cs.dropWhile isBlank

theorem length_skipBlank_le (cs : List Char) : (skipBlank cs).length ≤ cs.length :=
  (List.dropWhile_sublist _).length_le

/-- Passes over the letters of a word, which must come next. -/
def expectWord : (word : List Char) → List Char → Except Error (List Char)
  | [], cs => .ok cs
  | _ :: _, [] => .error .truncated
  | w :: ws, c :: cs => if c = w then expectWord ws cs else .error .malformed

theorem length_le_of_expectWord {ws cs r : List Char} (h : expectWord ws cs = .ok r) :
    r.length ≤ cs.length := by
  induction ws generalizing cs with
  | nil => simp_all [expectWord]
  | cons w ws ih =>
    cases cs with
    | nil => simp [expectWord] at h
    | cons c cs =>
      simp only [expectWord] at h
      split at h
      · have := ih h
        simp only [List.length_cons]
        omega
      · cases h

/-- Passes over blanks and the colon after a key. -/
def expectColon (cs : List Char) : Except Error (List Char) :=
  match skipBlank cs with
  | ':' :: r => .ok r
  | [] => .error .truncated
  | _ => .error .malformed

theorem length_lt_of_expectColon {cs r : List Char} (h : expectColon cs = .ok r) :
    r.length < cs.length := by
  have hle := length_skipBlank_le cs
  unfold expectColon at h
  split at h
  · next hcs =>
    cases h
    rw [hcs, List.length_cons] at hle
    omega
  · cases h
  · cases h

end GroupedExtrema.Json
