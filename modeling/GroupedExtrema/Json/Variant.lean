import GroupedExtrema.Json.Record

/-!
# Reading variants

One of several variants is written as its bare name, or as a map with its name as the only key and
its content as the value. A variant without content has the content `null` in the second form; one
with content has no bare form. What is neither a string nor a map, or has a key that is no string,
is malformed, whatever else it may be.
-/

namespace GroupedExtrema.Json

/-- How the variants of a type are read. -/
structure VariantReader (α : Type) where
  /-- The names of the variants. -/
  names : List String
  /-- The variant at an index if it has no content. -/
  bare : Nat → Option α
  /-- Reads the content of the variant at an index. -/
  content : Nat → List Char → Result α
  length_le_of_content : ∀ {i cs a r}, content i cs = .ok (a, r) → r.length ≤ cs.length

namespace VariantReader

variable {α : Type} (V : VariantReader α)

/-- Reads the name of a variant after its opening quote. -/
def readName (cs : List Char) : Result Nat :=
  match readString cs with
  | .error e => .error e
  | .ok (name, r) =>
    match V.names.findIdx? (·.toList == name) with
    | some i => .ok (i, r)
    | none => .error (.data (.unknownVariant name V.names))

/-- Reads the content of a variant after its name. -/
def readContent (i : Nat) (cs : List Char) : Result α :=
  match expectColon cs with
  | .error e => .error e
  | .ok r =>
    match V.bare i with
    | none => V.content i r
    | some a =>
      match readNull r with
      | .error e => .error e
      | .ok r => .ok (a, r)

/-- Reads a variant. -/
def readVariant (cs : List Char) : Result α :=
  match skipBlank cs with
  | [] => .error .truncated
  | '"' :: r =>
    match V.readName r with
    | .error e => .error e
    | .ok (i, r) =>
      match V.bare i with
      | some a => .ok (a, r)
      | none => .error (.data (.invalidType .unitVariant "newtype variant"))
  | '{' :: r =>
    match skipBlank r with
    | [] => .error .truncated
    | '"' :: r =>
      match V.readName r with
      | .error e => .error e
      | .ok (i, r) =>
        match V.readContent i r with
        | .error e => .error e
        | .ok (a, r) =>
          match endMap r with
          | .error e => .error e
          | .ok r => .ok (a, r)
    | _ => .error .malformed
  | _ => .error .malformed

theorem length_lt_of_readName {cs r : List Char} {i : Nat} (h : V.readName cs = .ok (i, r)) :
    r.length < cs.length := by
  unfold readName at h
  split at h
  · cases h
  · next hs =>
    split at h <;> cases h
    exact length_lt_of_readString hs

theorem length_le_of_readContent {i : Nat} {cs r : List Char} {a : α}
    (h : V.readContent i cs = .ok (a, r)) : r.length ≤ cs.length := by
  unfold readContent at h
  split at h
  · cases h
  · next hc =>
    have := length_lt_of_expectColon hc
    split at h
    · have := V.length_le_of_content h
      omega
    · split at h
      · cases h
      · next hn =>
        cases h
        have := length_le_of_readNull hn
        omega

theorem length_le_of_readVariant {cs r : List Char} {a : α}
    (h : V.readVariant cs = .ok (a, r)) : r.length ≤ cs.length := by
  have hle := length_skipBlank_le cs
  unfold readVariant at h
  split at h
  · cases h
  · next hcs =>
    rw [hcs, List.length_cons] at hle
    split at h
    · cases h
    · next hn =>
      have := V.length_lt_of_readName hn
      split at h <;> cases h
      omega
  · next r₁ hcs =>
    rw [hcs, List.length_cons] at hle
    have hle₁ := length_skipBlank_le r₁
    split at h
    · cases h
    · next hcs₁ =>
      rw [hcs₁, List.length_cons] at hle₁
      split at h
      · cases h
      · next hn =>
        have := V.length_lt_of_readName hn
        split at h
        · cases h
        · next hc =>
          have := V.length_le_of_readContent hc
          split at h <;> cases h
          next he =>
          have := length_le_of_endMap he
          omega
    · cases h
  · cases h

end VariantReader

end GroupedExtrema.Json
