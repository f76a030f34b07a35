import GroupedExtrema.Json.Blank
import GroupedExtrema.Json.Number
import GroupedExtrema.Json.StringLiteral

/-!
# Reading scalar values

Readers for integers of a range, for `null` and for optional integers. A reader that meets a value
of another type says what it found, and for that reads the value as far as it takes to name it: a
word to its end, a number or a string with its value, a sequence or map only by its bracket.
-/

namespace GroupedExtrema.Json

/-- The error of a reader that expected something else than the value that comes next. -/
def mismatch (expected : String) : List Char → Error
  | [] => .truncated
  | 'n' :: r =>
    match expectWord ['u', 'l', 'l'] r with
    | .ok _ => .data (.invalidType .null expected)
    | .error e => e
  | 't' :: r =>
    match expectWord ['r', 'u', 'e'] r with
    | .ok _ => .data (.invalidType (.boolean true) expected)
    | .error e => e
  | 'f' :: r =>
    match expectWord ['a', 'l', 's', 'e'] r with
    | .ok _ => .data (.invalidType (.boolean false) expected)
    | .error e => e
  | '"' :: r =>
    match readString r with
    | .ok (s, _) => .data (.invalidType (.string s) expected)
    | .error e => e
  | '[' :: _ => .data (.invalidType .sequence expected)
  | '{' :: _ => .data (.invalidType .map expected)
  | c :: r =>
    if startsNumber c then
      match readNumber (c :: r) with
      | .ok (.integer i, _) => .data (.invalidType (.integer i) expected)
      | .ok (.float x, _) => .data (.invalidType (.float x) expected)
      | .error e => e
    else .malformed

/-- A range of integers with the name of its type. -/
structure IntegerRange where
  name : String
  least : Int
  greatest : Int

namespace IntegerRange

/-- 32 bits, unsigned. -/
def unsigned32 : IntegerRange := ⟨"u32", 0, 2 ^ 32 - 1⟩

/-- 64 bits, unsigned: sizes and indices. -/
def size : IntegerRange := ⟨"usize", 0, 2 ^ 64 - 1⟩

/-- 8 bits, unsigned. -/
def unsigned8 : IntegerRange := ⟨"u8", 0, 2 ^ 8 - 1⟩

/-- 8 bits, signed. -/
def signed8 : IntegerRange := ⟨"i8", -2 ^ 7, 2 ^ 7 - 1⟩

end IntegerRange

/-- Reads an integer of a range. Doubles are refused, whole or not. -/
def readInteger (t : IntegerRange) (cs : List Char) : Result Int :=
  match skipBlank cs with
  | [] => .error .truncated
  | c :: r =>
    if startsNumber c then
      match readNumber (c :: r) with
      | .error e => .error e
      | .ok (.float x, _) => .error (.data (.invalidType (.float x) t.name))
      | .ok (.integer i, rest) =>
        if t.least ≤ i ∧ i ≤ t.greatest then .ok (i, rest)
        else .error (.data (.invalidValue i t.name))
    else .error (mismatch t.name (c :: r))

/-- Reads `null` or an integer of a range. -/
def readOptionalInteger (t : IntegerRange) (cs : List Char) : Result (Option Int) :=
  match skipBlank cs with
  | 'n' :: r =>
    match expectWord ['u', 'l', 'l'] r with
    | .ok r => .ok (none, r)
    | .error e => .error e
  | _ =>
    match readInteger t cs with
    | .ok (i, r) => .ok (some i, r)
    | .error e => .error e

/-- Reads `null`. -/
def readNull (cs : List Char) : Except Error (List Char) :=
  match skipBlank cs with
  | [] => .error .truncated
  | 'n' :: r => expectWord ['u', 'l', 'l'] r
  | cs => .error (mismatch "unit" cs)

/-- Reads a whole text with one reader. Only blanks may follow the value. -/
def readText {α : Type} (read : List Char → Result α) (text : String) : Except Error α :=
  match read text.toList with
  | .error e => .error e
  | .ok (a, rest) => if (skipBlank rest).isEmpty then .ok a else .error .malformed

/-! ## What is left is no longer than the text -/

theorem length_le_of_readInteger {t : IntegerRange} {cs r : List Char} {i : Int}
    (h : readInteger t cs = .ok (i, r)) : r.length ≤ cs.length := by
  have hle := length_skipBlank_le cs
  unfold readInteger at h
  split at h
  · cases h
  · next c r' hcs =>
    split at h
    · split at h
      · cases h
      · cases h
      · next hn =>
        split at h <;> cases h
        exact Nat.le_trans (length_le_of_readNumber hn) (hcs ▸ hle)
    · cases h

theorem length_le_of_readOptionalInteger {t : IntegerRange} {cs r : List Char} {i : Option Int}
    (h : readOptionalInteger t cs = .ok (i, r)) : r.length ≤ cs.length := by
  have hle := length_skipBlank_le cs
  unfold readOptionalInteger at h
  split at h
  · next hcs =>
    split at h <;> cases h
    next hw =>
    have := length_le_of_expectWord hw
    rw [hcs, List.length_cons] at hle
    omega
  · split at h <;> cases h
    next hi => exact length_le_of_readInteger hi

theorem length_le_of_readNull {cs r : List Char} (h : readNull cs = .ok r) :
    r.length ≤ cs.length := by
  have hle := length_skipBlank_le cs
  unfold readNull at h
  split at h
  · cases h
  · next hcs =>
    have := length_le_of_expectWord h
    rw [hcs, List.length_cons] at hle
    omega
  · cases h

end GroupedExtrema.Json
