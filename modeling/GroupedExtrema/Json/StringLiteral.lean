import GroupedExtrema.Arithmetic
import GroupedExtrema.Json.Error

/-!
# JSON strings

Strings are read from behind their opening quote up to and including the closing one. `readString`
decodes the escapes and refuses surrogates that do not form a pair; `skipString` only looks for the
end and does not care which characters the escapes stand for.
-/

namespace GroupedExtrema.Json

/-- The value of a hexadecimal digit. -/
def hexValue? (c : Char) : Option Nat :=
  if c.isDigit then some (c.toNat - '0'.toNat)
  else if 'a' ≤ c ∧ c ≤ 'f' then some (c.toNat - 'a'.toNat + 10)
  else if 'A' ≤ c ∧ c ≤ 'F' then some (c.toNat - 'A'.toNat + 10)
  else none

/-- The number that four hexadecimal digits stand for. -/
def hexQuad? (a b c d : Char) : Option Nat :=
  match hexValue? a, hexValue? b, hexValue? c, hexValue? d with
  | some a, some b, some c, some d => some (((a * 16 + b) * 16 + c) * 16 + d)
  | _, _, _, _ => none

/-- Number of bytes that characters take. -/
def byteLength (cs : List Char) : Nat := (cs.map fun c => c.utf8Size).sum

/-- Reads the four digits of an escape by number. The text has ended too early if it has fewer than
four bytes left. -/
def readHexQuad : List Char → Result Nat
  | a :: b :: c :: d :: r =>
    match hexQuad? a b c d with
    | some n => .ok (n, r)
    | none => .error .malformed
  | cs => .error (if byteLength cs < 4 then .truncated else .malformed)

theorem length_lt_of_readHexQuad {cs r : List Char} {n : Nat} (h : readHexQuad cs = .ok (n, r)) :
    r.length < cs.length := by
  unfold readHexQuad at h
  split at h
  · split at h
    · cases h
      simp only [List.length_cons]
      omega
    · cases h
  · cases h

/-- The character of an escape of one letter. -/
def simpleEscape? : Char → Option Char
  | '"' => some '"'
  | '\\' => some '\\'
  | '/' => some '/'
  | 'b' => some '\x08'
  | 'f' => some '\x0c'
  | 'n' => some '\n'
  | 'r' => some '\r'
  | 't' => some '\t'
  | _ => none

/-- The first half of a surrogate pair. -/
def isHighSurrogate (n : Nat) : Bool := 0xD800 ≤ n && n ≤ 0xDBFF

/-- The second half of a surrogate pair. -/
def isLowSurrogate (n : Nat) : Bool := 0xDC00 ≤ n && n ≤ 0xDFFF

/-- The character of a surrogate pair. -/
def surrogatePair (high low : Nat) : Char :=
  Char.ofNat (0x10000 + (high - 0xD800) * 0x400 + (low - 0xDC00))

/-- Reads the second half of a surrogate pair, with its backslash and letter. -/
def readLowSurrogate (high : Nat) : List Char → Result Char
  | [] => .error .truncated
  | ['\\'] => .error .truncated
  | '\\' :: 'u' :: r =>
    match readHexQuad r with
    | .error e => .error e
    | .ok (low, r) =>
      if isLowSurrogate low then .ok (surrogatePair high low, r) else .error .malformed
  | _ => .error .malformed

theorem length_lt_of_readLowSurrogate {high : Nat} {cs r : List Char} {c : Char}
    (h : readLowSurrogate high cs = .ok (c, r)) : r.length < cs.length := by
  unfold readLowSurrogate at h
  split at h
  · cases h
  · cases h
  · split at h
    · cases h
    · next heq =>
      have hlt := length_lt_of_readHexQuad heq
      split at h
      · simp only [Except.ok.injEq, Prod.mk.injEq] at h
        obtain ⟨-, rfl⟩ := h
        simp only [List.length_cons]
        omega
      · cases h
  · cases h

/-- Reads an escape after its backslash. -/
def readEscape : List Char → Result Char
  | [] => .error .truncated
  | 'u' :: r =>
    match readHexQuad r with
    | .error e => .error e
    | .ok (n, r) =>
      if isLowSurrogate n then .error .malformed
      else if isHighSurrogate n then readLowSurrogate n r
      else .ok (Char.ofNat n, r)
  | c :: r =>
    match simpleEscape? c with
    | some d => .ok (d, r)
    | none => .error .malformed

theorem length_lt_of_readEscape {cs r : List Char} {c : Char} (h : readEscape cs = .ok (c, r)) :
    r.length < cs.length := by
  unfold readEscape at h
  split at h
  · cases h
  · split at h
    · cases h
    · next heq =>
      have hlt := length_lt_of_readHexQuad heq
      split at h
      · cases h
      · split at h
        · have := length_lt_of_readLowSurrogate h
          simp only [List.length_cons]
          omega
        · cases h
          simp only [List.length_cons]
          omega
  · split at h
    · cases h
      simp only [List.length_cons]
      omega
    · cases h

/-- Control characters must be escaped. -/
def isControl (c : Char) : Bool := c.toNat < 32

/-- Reads the rest of a string: its characters, and the text after its closing quote. -/
def readString (cs : List Char) : Result (List Char) :=
  match cs with
  | [] => .error .truncated
  | '"' :: r => .ok ([], r)
  | '\\' :: r =>
    match h : readEscape r with
    | .error e => .error e
    | .ok (c, rest) =>
      have := length_lt_of_readEscape h
      (readString rest).map fun (s, r) => (c :: s, r)
  | c :: r =>
    if isControl c then .error .malformed
    else (readString r).map fun (s, r) => (c :: s, r)
termination_by cs.length
decreasing_by all_goals simp only [List.length_cons]; omega

theorem length_lt_of_readString {cs s r : List Char} (h : readString cs = .ok (s, r)) :
    r.length < cs.length := by
  fun_induction readString cs generalizing s with
  | case1 => cases h
  | case2 r => cases h; simp
  | case3 r e he => cases h
  | case4 r c rest he hlt ih =>
    cases hr : readString rest with
    | error e => rw [hr] at h; cases h
    | ok p =>
      rw [hr] at h
      cases h
      have := ih hr
      simp only [List.length_cons]
      omega
  | case5 c r _ _ hc => cases h
  | case6 c r _ _ hc ih =>
    cases hr : readString r with
    | error e => rw [hr] at h; cases h
    | ok p =>
      rw [hr] at h
      cases h
      have := ih hr
      simp only [List.length_cons]
      omega

/-- Passes over an escape after its backslash. -/
def skipEscape : List Char → Except Error (List Char)
  | [] => .error .truncated
  | 'u' :: r =>
    match readHexQuad r with
    | .error e => .error e
    | .ok (_, r) => .ok r
  | c :: r => if (simpleEscape? c).isSome then .ok r else .error .malformed

theorem length_lt_of_skipEscape {cs r : List Char} (h : skipEscape cs = .ok r) :
    r.length < cs.length := by
  unfold skipEscape at h
  split at h
  · cases h
  · split at h
    · cases h
    · next heq =>
      cases h
      have := length_lt_of_readHexQuad heq
      simp only [List.length_cons]
      omega
  · split at h
    · cases h
      simp
    · cases h

/-- Passes over the rest of a string. -/
def skipString (cs : List Char) : Except Error (List Char) :=
  match cs with
  | [] => .error .truncated
  | '"' :: r => .ok r
  | '\\' :: r =>
    match h : skipEscape r with
    | .error e => .error e
    | .ok rest =>
      have := length_lt_of_skipEscape h
      skipString rest
  | c :: r => if isControl c then .error .malformed else skipString r
termination_by cs.length
decreasing_by all_goals simp only [List.length_cons]; omega

theorem length_lt_of_skipString {cs r : List Char} (h : skipString cs = .ok r) :
    r.length < cs.length := by
  fun_induction skipString cs with
  | case1 => cases h
  | case2 r => cases h; simp
  | case3 r e he => cases h
  | case4 r rest he hlt ih =>
    have := ih h
    simp only [List.length_cons]
    omega
  | case5 c r _ _ hc => cases h
  | case6 c r _ _ hc ih =>
    have := ih h
    simp only [List.length_cons]
    omega

end GroupedExtrema.Json
