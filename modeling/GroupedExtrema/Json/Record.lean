import GroupedExtrema.Json.Scalar
import GroupedExtrema.Json.Skip

/-!
# Reading records

A record is written as a map from field names to values or as a sequence of the values in the order
of the fields. Reading fills a partial record field by field, so that the order of the members of a
map does not matter; members that are no fields are skipped, and a field that is given twice is an
error as soon as its key has been read the second time.
-/

namespace GroupedExtrema.Json

/-- How the fields of a record are read into a partial record `σ`. -/
structure RecordReader (σ : Type) where
  /-- The name of the record in messages. -/
  name : String
  /-- The names of the fields in order. -/
  fields : List String
  /-- The partial record without any field. -/
  start : σ
  /-- Has the field at an index been read? -/
  has : σ → Nat → Bool
  /-- Reads the value of the field at an index. -/
  read : Nat → σ → List Char → Result σ
  length_le_of_read : ∀ {i s cs s' r}, read i s cs = .ok (s', r) → r.length ≤ cs.length

/-- Reads a key with its quotes. -/
def readKey : List Char → Result (List Char)
  | [] => .error .truncated
  | '"' :: r => readString r
  | _ => .error .malformed

theorem length_lt_of_readKey {cs k r : List Char} (h : readKey cs = .ok (k, r)) :
    r.length < cs.length := by
  unfold readKey at h
  split at h
  · cases h
  · exact Nat.lt_succ_of_lt (length_lt_of_readString h)
  · cases h

/-- The key of a member that has been read. -/
def member : Result (List Char) → Result (Option (List Char))
  | .ok (k, r) => .ok (some k, r)
  | .error e => .error e

theorem eq_ok_of_member {result : Result (List Char)} {k r : List Char}
    (h : member result = .ok (some k, r)) : result = .ok (k, r) := by
  unfold member at h
  split at h <;> cases h
  rfl

/-- Reads the key of the next member; none at the end of the map, which is left where it is. Every
member but the first follows a comma. -/
def nextKey (first : Bool) (cs : List Char) : Result (Option (List Char)) :=
  match skipBlank cs with
  | [] => .error .truncated
  | '}' :: r => .ok (none, '}' :: r)
  | c :: r =>
    if first then member (readKey (c :: r))
    else if c = ',' then member (readKey (skipBlank r))
    else .error .malformed

theorem length_lt_of_nextKey {first : Bool} {cs k r : List Char}
    (h : nextKey first cs = .ok (some k, r)) : r.length < cs.length := by
  have hle := length_skipBlank_le cs
  unfold nextKey at h
  split at h
  · cases h
  · cases h
  · next c r' _ hcs =>
    rw [hcs] at hle
    split at h
    · exact Nat.lt_of_lt_of_le (length_lt_of_readKey (eq_ok_of_member h)) hle
    · split at h
      · have hlt := length_lt_of_readKey (eq_ok_of_member h)
        have hle' := length_skipBlank_le r'
        rw [List.length_cons] at hle
        omega
      · cases h

/-- Does another element of a sequence come next? Passes over the comma before it. Every element but
the first follows a comma, and the end of the sequence is left where it is. -/
def nextElement (first : Bool) (cs : List Char) : Result Bool :=
  match skipBlank cs with
  | [] => .error .truncated
  | ']' :: r => .ok (false, ']' :: r)
  | c :: r =>
    if first then .ok (true, c :: r)
    else if c = ',' then
      match skipBlank r with
      | [] => .error .truncated
      | ']' :: _ => .error .malformed
      | rest => .ok (true, rest)
    else .error .malformed

/-- Passes over the end of a sequence. -/
def endSequence (cs : List Char) : Except Error (List Char) :=
  match skipBlank cs with
  | [] => .error .truncated
  | ']' :: r => .ok r
  | _ => .error .malformed

/-- Passes over the end of a map. -/
def endMap (cs : List Char) : Except Error (List Char) :=
  match skipBlank cs with
  | [] => .error .truncated
  | '}' :: r => .ok r
  | _ => .error .malformed

theorem length_le_of_nextElement {first more : Bool} {cs r : List Char}
    (h : nextElement first cs = .ok (more, r)) : r.length ≤ cs.length := by
  have hle := length_skipBlank_le cs
  unfold nextElement at h
  split at h
  · cases h
  · next hcs =>
    cases h
    exact hcs ▸ hle
  · next c r' _ hcs =>
    rw [hcs] at hle
    have hle' := length_skipBlank_le r'
    rw [List.length_cons] at hle
    split at h
    · cases h
      exact hle
    · split at h
      · split at h
        · cases h
        · cases h
        · cases h
          omega
      · cases h

theorem length_le_of_endSequence {cs r : List Char} (h : endSequence cs = .ok r) :
    r.length ≤ cs.length := by
  have hle := length_skipBlank_le cs
  unfold endSequence at h
  split at h
  · cases h
  · next hcs =>
    cases h
    rw [hcs, List.length_cons] at hle
    omega
  · cases h

theorem length_le_of_endMap {cs r : List Char} (h : endMap cs = .ok r) :
    r.length ≤ cs.length := by
  have hle := length_skipBlank_le cs
  unfold endMap at h
  split at h
  · cases h
  · next hcs =>
    cases h
    rw [hcs, List.length_cons] at hle
    omega
  · cases h

namespace RecordReader

variable {σ : Type} (R : RecordReader σ)

/-- The index of the field with a name. -/
def index? (key : List Char) : Option Nat := R.fields.findIdx? (·.toList == key)

/-- Reads the members of a map up to its end. -/
def readMembers (first : Bool) (s : σ) (cs : List Char) : Result σ :=
  match hk : nextKey first cs with
  | .error e => .error e
  | .ok (none, r) => .ok (s, r)
  | .ok (some key, r) =>
    have := length_lt_of_nextKey hk
    match R.index? key with
    | some i =>
      if R.has s i then .error (.data (.duplicateField (String.ofList key)))
      else
        match hc : expectColon r with
        | .error e => .error e
        | .ok v =>
          have := length_lt_of_expectColon hc
          match hv : R.read i s v with
          | .error e => .error e
          | .ok (s, rest) =>
            have := R.length_le_of_read hv
            readMembers false s rest
    | none =>
      match hc : expectColon r with
      | .error e => .error e
      | .ok v =>
        have := length_lt_of_expectColon hc
        match hv : skipValue v with
        | .error e => .error e
        | .ok rest =>
          have := length_le_of_skipValue hv
          readMembers false s rest
termination_by cs.length

/-- Reads the elements of a sequence into so many fields from index `i` on, as long as there are
elements. Answers how many fields have been read. -/
def readElements : (fields : Nat) → (i : Nat) → σ → List Char → Result (Nat × σ)
  | 0, i, s, cs => .ok ((i, s), cs)
  | n + 1, i, s, cs =>
    match nextElement (i == 0) cs with
    | .error e => .error e
    | .ok (false, r) => .ok ((i, s), r)
    | .ok (true, r) =>
      match R.read i s r with
      | .error e => .error e
      | .ok (s, r) => readElements n (i + 1) s r

/-- Reads a record. `ofMap` makes the record from the members of a map, `ofSequence` from as many
elements as it is told; either may find that fields are missing. What they find wins over a wrong
end of the map or sequence. -/
def readRecord {ρ : Type} (ofMap : σ → Except Error ρ) (ofSequence : Nat → σ → Except Error ρ)
    (cs : List Char) : Result ρ :=
  match skipBlank cs with
  | [] => .error .truncated
  | '{' :: r =>
    match R.readMembers true R.start r with
    | .error e => .error e
    | .ok (s, r) =>
      match ofMap s, endMap r with
      | .error e, _ => .error e
      | _, .error e => .error e
      | .ok a, .ok r => .ok (a, r)
  | '[' :: r =>
    match R.readElements R.fields.length 0 R.start r with
    | .error e => .error e
    | .ok ((n, s), r) =>
      match ofSequence n s, endSequence r with
      | .error e, _ => .error e
      | _, .error e => .error e
      | .ok a, .ok r => .ok (a, r)
  | cs => .error (mismatch ("struct " ++ R.name) cs)

theorem length_le_of_readMembers {first : Bool} {s s' : σ} {cs r : List Char}
    (h : R.readMembers first s cs = .ok (s', r)) : r.length ≤ cs.length := by
  fun_induction R.readMembers first s cs with
  | case1 => cases h
  | case2 first s cs r hk =>
    cases h
    have hle := length_skipBlank_le cs
    unfold nextKey at hk
    split at hk
    · cases hk
    · next hcs =>
      cases hk
      exact hcs ▸ hle
    · split at hk
      · unfold member at hk
        split at hk <;> cases hk
      · split at hk
        · unfold member at hk
          split at hk <;> cases hk
        · cases hk
  | case3 => cases h
  | case4 => cases h
  | case5 => cases h
  | case6 =>
    have := R.length_le_of_read ‹_›
    next ih => have := ih h; omega
  | case7 => cases h
  | case8 => cases h
  | case9 =>
    next ih => have := ih h; omega

theorem length_le_of_readElements {n i m : Nat} {s s' : σ} {cs r : List Char}
    (h : R.readElements n i s cs = .ok ((m, s'), r)) : r.length ≤ cs.length := by
  induction n generalizing i s cs with
  | zero => cases h; exact Nat.le_refl _
  | succ n ih =>
    unfold readElements at h
    split at h
    · cases h
    · next hn =>
      cases h
      exact length_le_of_nextElement hn
    · next hn =>
      have hle := length_le_of_nextElement hn
      split at h
      · cases h
      · next hr =>
        have := R.length_le_of_read hr
        have := ih h
        omega

theorem length_le_of_readRecord {ρ : Type} {ofMap : σ → Except Error ρ}
    {ofSequence : Nat → σ → Except Error ρ} {cs r : List Char} {a : ρ}
    (h : R.readRecord ofMap ofSequence cs = .ok (a, r)) : r.length ≤ cs.length := by
  have hle := length_skipBlank_le cs
  unfold readRecord at h
  split at h
  · cases h
  · next hcs =>
    rw [hcs, List.length_cons] at hle
    split at h
    · cases h
    · next hm =>
      have := R.length_le_of_readMembers hm
      split at h
      · cases h
      · cases h
      · next he =>
        cases h
        have := length_le_of_endMap he
        omega
  · next hcs =>
    rw [hcs, List.length_cons] at hle
    split at h
    · cases h
    · next hm =>
      have := R.length_le_of_readElements hm
      split at h
      · cases h
      · cases h
      · next he =>
        cases h
        have := length_le_of_endSequence he
        omega
  · cases h

end RecordReader

end GroupedExtrema.Json
