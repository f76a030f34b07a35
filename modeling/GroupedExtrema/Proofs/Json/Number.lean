import GroupedExtrema.Json.Scalar
import GroupedExtrema.Json.Text
import GroupedExtrema.Proofs.Json.Skip

/-!
# Integers are read as they are written

`writeNat` and `writeInt` write each integer in one way, and the readers of integers accept that text
and no other: no zero in front, no fraction and no exponent, not even one that leaves a whole number,
and no minus sign before a zero. So reading an integer is described by an equation of texts.
-/

namespace GroupedExtrema.Json

/-! ## Digits -/

/-- Appends a digit to a number. -/
def pushDigit (n : Nat) (d : Char) : Nat := 10 * n + digitValue d

theorem digitsValue_eq_foldl (ds : List Char) : digitsValue ds = ds.foldl pushDigit 0 := rfl

theorem digitsValue_writeNat (n : Nat) : digitsValue (writeNat n) = n := by
  have h : digitsValue (writeNat n) = Nat.ofDigitChars 10 (writeNat n) 0 :=
    Nat.ofDigitChars_eq_foldl.symm
  rw [h, writeNat, Nat.ofDigitChars_ten_toDigits]

theorem digitValue_lt {d : Char} (hd : d.isDigit = true) : digitValue d < 10 := by
  have hle : d.toNat ≤ 57 := (Char.isDigit_iff_toNat.mp hd).2
  have h0 : '0'.toNat = 48 := rfl
  rw [digitValue, h0]
  omega

theorem writeNat_digitValue {d : Char} (hd : d.isDigit = true) : writeNat (digitValue d) = [d] := by
  have hlt := digitValue_lt hd
  have hge : 48 ≤ d.toNat := (Char.isDigit_iff_toNat.mp hd).1
  have h0 : '0'.toNat = 48 := rfl
  have hchar : (digitValue d).digitChar = d := by
    apply Char.toNat_inj.mp
    rw [Nat.toNat_digitChar_of_lt_ten hlt, digitValue, h0]
    omega
  rw [writeNat, Nat.toDigits_of_lt_base hlt, hchar]

/-- Behind a number other than zero each digit is written as it was read. -/
theorem writeNat_foldl_pushDigit {ds : List Char} (hds : ∀ d ∈ ds, d.isDigit = true) {n : Nat}
    (hn : 0 < n) : writeNat (ds.foldl pushDigit n) = writeNat n ++ ds := by
  induction ds generalizing n with
  | nil => simp
  | cons d ds ih =>
    rw [List.forall_mem_cons] at hds
    have hpush : writeNat (pushDigit n d) = writeNat n ++ [d] := by
      have h := Nat.toDigits_append_toDigits (by decide : 1 < 10) hn (digitValue_lt hds.1)
      rw [← writeNat_digitValue hds.1]
      exact h.symm
    have hpos : 0 < pushDigit n d := by
      rw [pushDigit]
      omega
    rw [List.foldl_cons, ih hds.2 hpos, hpush, List.append_assoc]
    rfl

/-- Digits without a needless zero are what is written for their value. -/
theorem IsWhole.eq_writeNat {ds : List Char} (h : IsWhole ds) : ds = writeNat (digitsValue ds) := by
  obtain ⟨⟨hne, hdigits⟩, hzero⟩ := h
  obtain ⟨d, ds, rfl⟩ := List.exists_cons_of_ne_nil hne
  rw [List.forall_mem_cons] at hdigits
  have hfirst : pushDigit 0 d = digitValue d := by simp [pushDigit]
  rw [digitsValue_eq_foldl, List.foldl_cons, hfirst]
  by_cases hd : d = '0'
  · subst hd
    cases hzero ds rfl
    rfl
  · have hpos : 0 < digitValue d := by
      have hge : 48 ≤ d.toNat := (Char.isDigit_iff_toNat.mp hdigits.1).1
      have hne : d.toNat ≠ '0'.toNat := fun heq => hd (Char.toNat_inj.mp heq)
      have h0 : '0'.toNat = 48 := rfl
      rw [digitValue]
      omega
    rw [writeNat_foldl_pushDigit hdigits.2 hpos, writeNat_digitValue hdigits.1]
    rfl

theorem writeNat_ne_zero_cons {n : Nat} (hn : 0 < n) (r : List Char) : writeNat n ≠ '0' :: r := by
  induction n using Nat.strongRecOn generalizing r with
  | ind n ih =>
    intro h
    by_cases hlt : n < 10
    · rw [writeNat, Nat.toDigits_of_lt_base hlt] at h
      have := Nat.digitChar_eq_zero.mp (List.cons.inj h).1
      omega
    · obtain ⟨d, ds, hds⟩ := List.exists_cons_of_ne_nil (Nat.toDigits_ne_nil (n := n / 10) (b := 10))
      rw [writeNat, Nat.toDigits_of_base_le (by decide) (by omega), hds] at h
      obtain ⟨rfl, -⟩ := List.cons.inj h
      exact ih (n / 10) (by omega) (by omega) ds hds

theorem isWhole_writeNat (n : Nat) : IsWhole (writeNat n) := by
  refine ⟨⟨Nat.toDigits_ne_nil, fun d hd =>
    Nat.isDigit_of_mem_toDigits (by decide) (Nat.le_refl 10) hd⟩, fun r hr => ?_⟩
  rcases Nat.eq_zero_or_pos n with rfl | hn
  · exact (List.cons.inj hr).2.symm
  · exact absurd hr (writeNat_ne_zero_cons hn r)

/-! ## Digits that fit into 64 bits -/

theorem le_foldl_pushDigit (n : Nat) (ds : List Char) : n ≤ ds.foldl pushDigit n := by
  induction ds generalizing n with
  | nil => exact Nat.le_refl n
  | cons d ds ih =>
    have := ih (pushDigit n d)
    rw [pushDigit] at this
    rw [List.foldl_cons, pushDigit]
    omega

theorem absorb_eq_nil_iff {n m : Nat} {ds : List Char} (hn : n < 2 ^ 64) :
    absorb n ds = (m, []) ↔ ds.foldl pushDigit n = m ∧ m < 2 ^ 64 := by
  induction ds generalizing n with
  | nil =>
    simp only [absorb, List.foldl_nil, Prod.mk.injEq, and_true]
    exact ⟨fun h => ⟨h, h ▸ hn⟩, And.left⟩
  | cons d ds ih =>
    have hle := le_foldl_pushDigit (pushDigit n d) ds
    simp only [absorb, List.foldl_cons]
    split
    · next hlt => exact ih hlt
    · next hlt =>
      simp only [pushDigit] at hle ⊢
      simp
      omega

/-! ## Numbers -/

theorem IsWhole.isMagnitude {ds : List Char} (h : IsWhole ds) : IsMagnitude ds := by
  simpa using IsMagnitude.mk h .absent .absent

theorem asFloat_ne_integer (result : Result Float64Value) (i : Int) (r : List Char) :
    asFloat result ≠ .ok (.integer i, r) := by
  unfold asFloat
  split <;> simp

/-- What follows the digits leaves an integer only if it is no part of the number. -/
theorem readTail_eq_ok_integer_iff {negative : Bool} {significand dropped : Nat}
    {rest r : List Char} {i : Int} (h : EndsDigits rest) :
    readTail negative significand dropped rest = .ok (.integer i, r) ↔
      EndsNumber rest ∧ dropped = 0 ∧ integerOfParts negative significand = .integer i ∧
        rest = r := by
  unfold readTail
  split
  · simp [asFloat_ne_integer, continuesNumber]
  · simp [asFloat_ne_integer, continuesNumber]
  · simp [asFloat_ne_integer, continuesNumber]
  · next hdot he hE =>
    have hends : EndsNumber rest := by
      intro c r hrest
      simp only [continuesNumber, h c r hrest, Bool.false_or, Bool.or_eq_false_iff,
        beq_eq_false_iff_ne]
      exact ⟨⟨fun hc => hdot r (hc ▸ hrest), fun hc => he r (hc ▸ hrest)⟩,
        fun hc => hE r (hc ▸ hrest)⟩
    split
    · next hd => simp [hends, hd]
    · next hd => simp [hd, asFloat_ne_integer]

theorem endsDigits_dropWhile (cs : List Char) : EndsDigits (cs.dropWhile Char.isDigit) := by
  intro c r hcs
  have h := List.head?_dropWhile_not Char.isDigit cs
  rwa [hcs] at h

theorem readMagnitude_append {negative : Bool} {ds rest : List Char} (hds : IsWhole ds)
    (h : EndsDigits rest) :
    readMagnitude negative (ds ++ rest) =
      readTail negative (absorb 0 ds).1 (absorb 0 ds).2.length rest := by
  have hdrop := dropWhile_isDigit_append hds.1.2 h
  rw [readMagnitude, takeWhile_isDigit_append hds.1.2 h]
  split
  · exact absurd rfl hds.1.1
  · exact absurd (hds.2 _ rfl) (by simp)
  · rw [hdrop]

/-- A number is refused unless it starts with digits that are a whole part. -/
theorem exists_isWhole_of_readMagnitude {negative : Bool} {cs r : List Char} {n : Number}
    (h : readMagnitude negative cs = .ok (n, r)) :
    ∃ ds rest, cs = ds ++ rest ∧ IsWhole ds ∧ EndsDigits rest := by
  refine ⟨_, _, List.takeWhile_append_dropWhile.symm, ?_, endsDigits_dropWhile cs⟩
  unfold readMagnitude at h
  split at h
  · contradiction
  · contradiction
  · next hne hzero =>
    refine ⟨⟨hne, fun d hd => List.all_eq_true.mp List.all_takeWhile d hd⟩, fun r hr => ?_⟩
    cases r with
    | nil => rfl
    | cons c r => exact absurd hr (hzero c r)

/-- Digits are read as an integer if nothing of a number follows them and 64 bits are enough. -/
theorem readMagnitude_eq_ok_integer_iff {negative : Bool} {cs r : List Char} {i : Int} :
    readMagnitude negative cs = .ok (.integer i, r) ↔
      ∃ n, cs = writeNat n ++ r ∧ EndsNumber r ∧ n < 2 ^ 64 ∧
        integerOfParts negative n = .integer i := by
  constructor
  · intro h
    obtain ⟨ds, rest, rfl, hds, hrest⟩ := exists_isWhole_of_readMagnitude h
    -- no digit has been dropped, so the significand is the value of all of them
    rw [readMagnitude_append hds hrest, readTail_eq_ok_integer_iff hrest] at h
    obtain ⟨hends, hdropped, hi, rfl⟩ := h
    have habsorb : absorb 0 ds = ((absorb 0 ds).1, []) :=
      Prod.ext rfl (List.eq_nil_of_length_eq_zero hdropped)
    obtain ⟨hvalue, hlt⟩ := (absorb_eq_nil_iff (by decide)).mp habsorb
    refine ⟨(absorb 0 ds).1, ?_, hends, hlt, hi⟩
    rw [← hvalue, ← digitsValue_eq_foldl, ← hds.eq_writeNat]
  · rintro ⟨n, rfl, hends, hlt, hi⟩
    have habsorb : absorb 0 (writeNat n) = (n, []) :=
      (absorb_eq_nil_iff (by decide)).mpr ⟨digitsValue_writeNat n, hlt⟩
    rw [readMagnitude_append (isWhole_writeNat n) hends.endsDigits,
      readTail_eq_ok_integer_iff hends.endsDigits, habsorb]
    exact ⟨hends, rfl, hi, rfl⟩

theorem integerOfParts_negative {n : Nat} {i : Int} :
    integerOfParts true n = .integer i ↔ (0 < n ∧ n ≤ 2 ^ 63) ∧ -n = i := by
  rw [integerOfParts, if_pos rfl]
  split
  · next h => simp [h]
  · next h => simp only [reduceCtorEq, h, false_and]

theorem integerOfParts_positive {n : Nat} {i : Int} :
    integerOfParts false n = .integer i ↔ (n : Int) = i := by
  simp [integerOfParts]

theorem writeNat_ne_minus_cons (n : Nat) (r r' : List Char) : writeNat n ++ r ≠ '-' :: r' := by
  intro h
  obtain ⟨d, ds, hds⟩ := List.exists_cons_of_ne_nil (isWhole_writeNat n).1.1
  have hd : d.isDigit = true := (isWhole_writeNat n).1.2 d (by simp [hds])
  rw [hds] at h
  exact ne_of_isDigit hd rfl (List.cons.inj h).1

/-- The integers that 64 bits can hold, as signed or as unsigned ones. -/
def FitsWord (i : Int) : Prop := -2 ^ 63 ≤ i ∧ i < 2 ^ 64

/-- A number is read as an integer if it is the text of one that fits into 64 bits. -/
theorem readNumber_eq_ok_integer_iff {cs r : List Char} {i : Int} :
    readNumber cs = .ok (.integer i, r) ↔ cs = writeInt i ++ r ∧ EndsNumber r ∧ FitsWord i := by
  unfold readNumber FitsWord
  split
  · next cs' =>
    rw [readMagnitude_eq_ok_integer_iff]
    simp only [integerOfParts_negative]
    constructor
    · rintro ⟨n, rfl, hends, -, ⟨hpos, hle⟩, rfl⟩
      obtain ⟨m, rfl⟩ := Nat.exists_eq_succ_of_ne_zero (Nat.ne_of_gt hpos)
      exact ⟨rfl, hends, by omega, by omega⟩
    · rintro ⟨hcs, hends, hge, -⟩
      cases i with
      | ofNat k => exact absurd hcs.symm (writeNat_ne_minus_cons k r cs')
      | negSucc m =>
        exact ⟨m + 1, (List.cons.inj hcs).2, hends, by omega, by omega, by omega⟩
  · next hminus =>
    rw [readMagnitude_eq_ok_integer_iff]
    simp only [integerOfParts_positive]
    constructor
    · rintro ⟨n, rfl, hends, hlt, rfl⟩
      exact ⟨rfl, hends, by omega, by omega⟩
    · rintro ⟨hcs, hends, -, hlt⟩
      cases i with
      | ofNat k =>
        rw [Int.ofNat_eq_natCast] at hlt
        exact ⟨k, hcs, hends, by omega, rfl⟩
      | negSucc m => exact absurd hcs (hminus _)

/-! ## Integers of a range -/

theorem startsNumber_of_writeInt {i : Int} {c : Char} {cs r : List Char}
    (h : c :: cs = writeInt i ++ r) : startsNumber c = true := by
  cases i with
  | negSucc m =>
    cases h
    rfl
  | ofNat k =>
    obtain ⟨d, ds, hds⟩ := List.exists_cons_of_ne_nil (isWhole_writeNat k).1.1
    have hd : d.isDigit = true := (isWhole_writeNat k).1.2 d (by simp [hds])
    rw [writeInt, hds] at h
    cases h
    simp [startsNumber, hd]

/-- Behind blanks an integer of a range is read if it is written as `writeInt` writes it. -/
theorem readInteger_eq_ok_iff {t : IntegerRange} {cs r : List Char} {i : Int} :
    readInteger t cs = .ok (i, r) ↔
      (skipBlank cs = writeInt i ++ r ∧ EndsNumber r ∧ FitsWord i) ∧
        t.least ≤ i ∧ i ≤ t.greatest := by
  rw [← readNumber_eq_ok_integer_iff]
  unfold readInteger
  split
  · next hcs => simp [hcs, readNumber, readMagnitude]
  · next c cs' hcs =>
    rw [hcs]
    split
    · split
      · next hn => simp [hn]
      · next hn => simp [hn]
      · next j rest hn =>
        simp only [hn, Except.ok.injEq, Prod.mk.injEq, Number.integer.injEq]
        split
        · next hj =>
          simp only [Except.ok.injEq, Prod.mk.injEq, iff_self_and]
          rintro ⟨rfl, rfl⟩
          exact hj
        · next hj =>
          refine iff_of_false (by simp) ?_
          rintro ⟨⟨rfl, rfl⟩, hrange⟩
          exact hj hrange
    · next hc =>
      refine iff_of_false (by simp) ?_
      rintro ⟨h, -⟩
      exact hc (startsNumber_of_writeInt (readNumber_eq_ok_integer_iff.mp h).1)

end GroupedExtrema.Json
