import GroupedExtrema.Json.Blank
import GroupedExtrema.Json.Number
import GroupedExtrema.Json.StringLiteral

/-!
# Skipping values

A value under a key that nobody asked for is only checked for its grammar: it may be nested to any
depth, its numbers may be of any size and its strings may hold any surrogates. The containers that
are open are kept on a stack, so the depth of a value costs no depth of recursion.
-/

namespace GroupedExtrema.Json

/-! ## Values without parts -/

/-- Passes over the digits that must come next. -/
def skipDigits (cs : List Char) : Except Error (List Char) :=
  if (cs.takeWhile Char.isDigit).isEmpty then .error .malformed
  else .ok (cs.dropWhile Char.isDigit)

/-- Passes over an exponent after its letter. -/
def skipExponent : List Char → Except Error (List Char)
  | '+' :: r | '-' :: r => skipDigits r
  | cs => skipDigits cs

/-- Passes over a fraction after its point, and an exponent if there is one. -/
def skipFraction (cs : List Char) : Except Error (List Char) :=
  match skipDigits cs with
  | .ok ('e' :: r) | .ok ('E' :: r) => skipExponent r
  | result => result

/-- Passes over a number without its sign. A zero stands alone before the point. -/
def skipMagnitude (cs : List Char) : Except Error (List Char) :=
  match cs.takeWhile Char.isDigit with
  | '0' :: _ :: _ => .error .malformed
  | _ =>
    match skipDigits cs with
    | .ok ('.' :: r) => skipFraction r
    | .ok ('e' :: r) | .ok ('E' :: r) => skipExponent r
    | result => result

/-- Passes over a value that is neither a sequence nor a map. -/
def skipAtom : List Char → Except Error (List Char)
  | [] => .error .truncated
  | 'n' :: r => expectWord ['u', 'l', 'l'] r
  | 't' :: r => expectWord ['r', 'u', 'e'] r
  | 'f' :: r => expectWord ['a', 'l', 's', 'e'] r
  | '"' :: r => skipString r
  | '-' :: r => skipMagnitude r
  | c :: r => if c.isDigit then skipMagnitude (c :: r) else .error .malformed

theorem length_lt_of_skipDigits {cs r : List Char} (h : skipDigits cs = .ok r) :
    r.length < cs.length := by
  unfold skipDigits at h
  split at h
  · cases h
  · next hne =>
    cases h
    have hsplit := congrArg List.length (List.takeWhile_append_dropWhile (p := Char.isDigit) (l := cs))
    have hpos : 0 < (cs.takeWhile Char.isDigit).length := by
      cases hcs : cs.takeWhile Char.isDigit with
      | nil => simp [hcs] at hne
      | cons c ds => simp
    rw [List.length_append] at hsplit
    omega

theorem length_lt_of_skipExponent {cs r : List Char} (h : skipExponent cs = .ok r) :
    r.length < cs.length := by
  unfold skipExponent at h
  split at h
  · have := length_lt_of_skipDigits h
    simp only [List.length_cons]
    omega
  · have := length_lt_of_skipDigits h
    simp only [List.length_cons]
    omega
  · exact length_lt_of_skipDigits h

theorem length_lt_of_skipFraction {cs r : List Char} (h : skipFraction cs = .ok r) :
    r.length < cs.length := by
  unfold skipFraction at h
  split at h
  · next hds =>
    have := length_lt_of_skipDigits hds
    have := length_lt_of_skipExponent h
    simp only [List.length_cons] at *
    omega
  · next hds =>
    have := length_lt_of_skipDigits hds
    have := length_lt_of_skipExponent h
    simp only [List.length_cons] at *
    omega
  · exact length_lt_of_skipDigits h

theorem length_lt_of_skipMagnitude {cs r : List Char} (h : skipMagnitude cs = .ok r) :
    r.length < cs.length := by
  unfold skipMagnitude at h
  split at h
  · cases h
  · split at h
    · next hds =>
      have := length_lt_of_skipDigits hds
      have := length_lt_of_skipFraction h
      simp only [List.length_cons] at *
      omega
    · next hds =>
      have := length_lt_of_skipDigits hds
      have := length_lt_of_skipExponent h
      simp only [List.length_cons] at *
      omega
    · next hds =>
      have := length_lt_of_skipDigits hds
      have := length_lt_of_skipExponent h
      simp only [List.length_cons] at *
      omega
    · exact length_lt_of_skipDigits h

theorem length_lt_of_skipAtom {cs r : List Char} (h : skipAtom cs = .ok r) :
    r.length < cs.length := by
  unfold skipAtom at h
  split at h
  · cases h
  · exact Nat.lt_succ_of_le (length_le_of_expectWord h)
  · exact Nat.lt_succ_of_le (length_le_of_expectWord h)
  · exact Nat.lt_succ_of_le (length_le_of_expectWord h)
  · exact Nat.lt_succ_of_lt (length_lt_of_skipString h)
  · exact Nat.lt_succ_of_lt (length_lt_of_skipMagnitude h)
  · split at h
    · exact length_lt_of_skipMagnitude h
    · cases h

/-! ## Nested values -/

/-- The two kinds of values with parts. -/
inductive Container where
  | sequence
  | map
deriving DecidableEq

namespace Container

/-- The character that ends a container. -/
def close : Container → Char
  | sequence => ']'
  | map => '}'

/-- Passes over what stands before a value in a container: nothing in a sequence, in a map a key and
a colon. -/
def skipLabel : Container → List Char → Except Error (List Char)
  | sequence, cs => .ok cs
  | map, cs =>
    match skipBlank cs with
    | '"' :: r =>
      match skipString r with
      | .ok r => expectColon r
      | .error e => .error e
    | [] => .error .truncated
    | _ => .error .malformed

theorem length_le_of_skipLabel {f : Container} {cs r : List Char}
    (h : f.skipLabel cs = .ok r) : r.length ≤ cs.length := by
  cases f with
  | sequence => cases h; exact Nat.le_refl _
  | map =>
    have hle := length_skipBlank_le cs
    simp only [skipLabel] at h
    split at h
    · next hcs =>
      split at h
      · next hs =>
        have := length_lt_of_skipString hs
        have := length_lt_of_expectColon h
        rw [hcs, List.length_cons] at hle
        omega
      · cases h
    · cases h
    · cases h

end Container

/-- Where in a value the text is. -/
inductive Place where
  /-- A value comes next. -/
  | value
  /-- A container has just been opened: its first value or its end comes next. -/
  | opened (f : Container)
  /-- A value has just ended. -/
  | closed

/-- Breaks ties in the length of the rest. -/
def Place.rank : Place → Nat
  | opened _ => 1
  | _ => 0

/-- Passes over the rest of a value inside of the containers that are open, innermost first. -/
def skipFrom (stack : List Container) (place : Place) (cs : List Char) :
    Except Error (List Char) :=
  match place with
  | .value =>
    match hcs : skipBlank cs with
    | [] => .error .truncated
    | '[' :: r =>
      have := hcs ▸ length_skipBlank_le cs
      skipFrom stack (.opened .sequence) r
    | '{' :: r =>
      have := hcs ▸ length_skipBlank_le cs
      skipFrom stack (.opened .map) r
    | c :: r =>
      have := hcs ▸ length_skipBlank_le cs
      match h : skipAtom (c :: r) with
      | .error e => .error e
      | .ok rest =>
        have := length_lt_of_skipAtom h
        skipFrom stack .closed rest
  | .opened f =>
    match hcs : skipBlank cs with
    | [] => .error .truncated
    | c :: r =>
      have := hcs ▸ length_skipBlank_le cs
      if c = f.close then skipFrom stack .closed r
      else
        match h : f.skipLabel (c :: r) with
        | .error e => .error e
        | .ok rest =>
          have := Container.length_le_of_skipLabel h
          skipFrom (f :: stack) .value rest
  | .closed =>
    match stack with
    | [] => .ok cs
    | f :: stack =>
      match hcs : skipBlank cs with
      | [] => .error .truncated
      | ',' :: r =>
        have := hcs ▸ length_skipBlank_le cs
        match h : f.skipLabel r with
        | .error e => .error e
        | .ok rest =>
          have := Container.length_le_of_skipLabel h
          skipFrom (f :: stack) .value rest
      | c :: r =>
        have := hcs ▸ length_skipBlank_le cs
        if c = f.close then skipFrom stack .closed r else .error .malformed
termination_by 2 * cs.length + place.rank
decreasing_by all_goals simp_all only [List.length_cons, Place.rank]; omega

/-- Passes over a value. -/
def skipValue (cs : List Char) : Except Error (List Char) := skipFrom [] .value cs

theorem length_le_of_skipFrom {stack : List Container} {place : Place} {cs r : List Char}
    (h : skipFrom stack place cs = .ok r) : r.length ≤ cs.length := by
  fun_induction skipFrom stack place cs <;> simp_all only [reduceCtorEq, Except.ok.injEq,
    List.length_cons, Nat.le_refl, forall_const] <;> omega

theorem length_le_of_skipValue {cs r : List Char} (h : skipValue cs = .ok r) :
    r.length ≤ cs.length :=
  length_le_of_skipFrom h

end GroupedExtrema.Json
