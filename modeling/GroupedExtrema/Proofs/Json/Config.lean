import GroupedExtrema.Json.Config
import GroupedExtrema.Proofs.Json.Record

/-!
# Which settings a text holds

The settings that are read from the text of a map are a function of its members, and a text is
accepted if the known members are as they should be: each there at most once, the number of bits an
integer literal of the allowed range, the limit `null` or an integer literal of 64 bits. What else is
in the map, in which order, with which blanks and how the keys are escaped plays no part.
-/

namespace GroupedExtrema

open Json

/-- A layout comes from its own number of bits only. -/
theorem ChunkLayout.ofBits?_eq_some_iff {bits : Nat} {l : ChunkLayout} :
    ofBits? bits = some l ↔ bits = l.bits := by
  constructor
  · intro h
    unfold ofBits? at h
    split at h
    · exact congrArg ChunkLayout.bits (Option.some.inj h)
    · contradiction
  · rintro rfl
    exact l.ofBits?_bits

namespace Config

variable {v : List Char}

/-! ## The values of the fields -/

/-- A layout as it is written: its number of bits. -/
def writeLayout (l : ChunkLayout) : List Char := writeNat l.bits

/-- The limit as it is written. -/
def writeLimit : Option UInt64 → List Char
  | none => ['n', 'u', 'l', 'l']
  | some n => writeNat n.toNat

/-- A layout is read as the one whose number of bits stands in the text. Numbers of bits that no
layout has are refused, not replaced. -/
theorem readLayout_eq_ok_iff {cs r : List Char} {l : ChunkLayout} :
    readLayout cs = .ok (l, r) ↔ readInteger .unsigned32 cs = .ok ((l.bits : Int), r) := by
  unfold readLayout
  cases h : readInteger .unsigned32 cs with
  | error e => simp
  | ok p =>
    obtain ⟨n, r'⟩ := p
    have hleast : 0 ≤ n := (readInteger_eq_ok_iff.mp h).2.1
    obtain ⟨k, rfl⟩ := Int.eq_ofNat_of_zero_le hleast
    simp only [Int.toNat_natCast, Except.ok.injEq, Prod.mk.injEq, Int.natCast_inj,
      ← ChunkLayout.ofBits?_eq_some_iff]
    cases ChunkLayout.ofBits? k with
    | none => simp
    | some l' => simp

theorem readField_layout_eq_ok_iff {s s' : PartialConfig} {cs r : List Char} :
    readField 0 s cs = .ok (s', r) ↔
      ∃ l, readLayout cs = .ok (l, r) ∧ { s with layout := some l } = s' := by
  rw [readField, if_pos rfl]
  cases readLayout cs with
  | error e => simp
  | ok p => simp [Prod.ext_iff, and_assoc, and_comm]

theorem readField_limit_eq_ok_iff {s s' : PartialConfig} {cs r : List Char} :
    readField 1 s cs = .ok (s', r) ↔
      ∃ n, readOptionalInteger .size cs = .ok (n, r) ∧
        { s with memoryLimit := some (n.map fun n => n.toNat.toUInt64) } = s' := by
  rw [readField, if_neg (by decide)]
  cases readOptionalInteger .size cs with
  | error e => simp
  | ok p => simp [Prod.ext_iff, and_assoc, and_comm]

theorem takesWhole_readLayout (hv : IsValue v) : TakesWhole readLayout v := by
  have hread {cs r : List Char} {l : ChunkLayout} : readLayout cs = .ok (l, r) ↔
      ∃ n, readInteger .unsigned32 cs = .ok (n, r) ∧ n = l.bits := by
    simp [readLayout_eq_ok_iff]
  exact (takesWhole_readInteger .unsigned32 hv).of_eq_ok_iff hread

theorem readLayout_eq_ok_iff_of_isValue (hv : IsValue v) {l : ChunkLayout} :
    readLayout v = .ok (l, []) ↔ v = writeLayout l := by
  have hle := l.bits_le
  have hfits : FitsWord l.bits := ⟨by omega, by omega⟩
  have hgreatest : (l.bits : Int) ≤ 2 ^ 32 - 1 := by omega
  rw [readLayout_eq_ok_iff, readInteger_eq_ok_iff_of_isValue hv]
  exact and_iff_left ⟨hfits, Int.natCast_nonneg _, hgreatest⟩

theorem readLimit_eq_ok_iff_of_isValue (hv : IsValue v) {limit : Option UInt64} :
    (∃ n, readOptionalInteger .size v = .ok (n, []) ∧
      n.map (fun n => n.toNat.toUInt64) = limit) ↔ v = writeLimit limit := by
  simp only [readOptionalInteger_eq_ok_iff_of_isValue hv]
  constructor
  · rintro ⟨n, hn, rfl⟩
    cases n with
    | none => exact hn
    | some i =>
      obtain ⟨rfl, -, hleast, hgreatest⟩ := hn
      obtain ⟨k, rfl⟩ := Int.eq_ofNat_of_zero_le hleast
      have hle : (k : Int) ≤ 2 ^ 64 - 1 := hgreatest
      have hk : k < 2 ^ 64 := by omega
      have hword : (k.toUInt64).toNat = k := Nat.mod_eq_of_lt hk
      rw [Option.map_some, writeLimit, Int.toNat_natCast, hword]
      rfl
  · rintro rfl
    cases limit with
    | none => exact ⟨none, rfl, rfl⟩
    | some n =>
      have hlt := n.toNat_lt
      have hgreatest : (n.toNat : Int) ≤ 2 ^ 64 - 1 := by omega
      exact ⟨some n.toNat, ⟨rfl, ⟨by omega, by omega⟩, Int.natCast_nonneg _, hgreatest⟩, by simp⟩

/-! ## The fields of a map -/

theorem index?_reader (key : List Char) :
    reader.index? key =
      if key = "bits_in_chunk".toList then some 0
      else if key = "memory_limit".toList then some 1 else none := by
  simp only [RecordReader.index?, reader, List.findIdx?_cons, List.findIdx?_nil, beq_iff_eq,
    Option.map_none, eq_comm (b := key)]
  split
  · rfl
  · split <;> rfl

/-- Every member whose value is JSON at all is read without regard to what is around it. -/
theorem takes_of_isValue {m : Member} (hm : IsValue m.value) : reader.Takes m := by
  intro i hi s
  rw [index?_reader] at hi
  split at hi
  · cases hi
    exact (takesWhole_readLayout hm).of_eq_ok_iff readField_layout_eq_ok_iff
  · split at hi <;> cases hi
    exact (takesWhole_readOptionalInteger _ hm).of_eq_ok_iff readField_limit_eq_ok_iff

/-- What the values of one field do to it. A field is filled once; `write` says by which text. -/
def Filled {α : Type} (write : α → List Char) (before : Option α) (values : List (List Char))
    (after : Option α) : Prop :=
  match values with
  | [] => after = before
  | v :: vs => before = none ∧ vs = [] ∧ ∃ x, v = write x ∧ after = some x

theorem filled_some {α : Type} {write : α → List Char} {x : α} {values : List (List Char)}
    {after : Option α} : Filled write (some x) values after ↔ values = [] ∧ after = some x := by
  cases values <;> simp [Filled]

theorem enter_layout_iff {m : Member} (hm : IsValue m.value) (hi : reader.index? m.key = some 0)
    {s s' : PartialConfig} :
    reader.Enter s m s' ↔
      s.layout = none ∧ ∃ l, m.value = writeLayout l ∧ { s with layout := some l } = s' := by
  have hhas : reader.has s 0 = false ↔ s.layout = none := by simp [reader]
  have hread : reader.read 0 s m.value = .ok (s', []) ↔
      ∃ l, m.value = writeLayout l ∧ { s with layout := some l } = s' := by
    simp only [← readLayout_eq_ok_iff_of_isValue hm]
    exact readField_layout_eq_ok_iff
  rw [RecordReader.enter_field hi, hhas, hread]

theorem enter_limit_iff {m : Member} (hm : IsValue m.value) (hi : reader.index? m.key = some 1)
    {s s' : PartialConfig} :
    reader.Enter s m s' ↔
      s.memoryLimit = none ∧
        ∃ limit, m.value = writeLimit limit ∧ { s with memoryLimit := some limit } = s' := by
  have hhas : reader.has s 1 = false ↔ s.memoryLimit = none := by simp [reader]
  have hread : reader.read 1 s m.value = .ok (s', []) ↔
      ∃ limit, m.value = writeLimit limit ∧ { s with memoryLimit := some limit } = s' := by
    simp only [← readLimit_eq_ok_iff_of_isValue hm]
    refine readField_limit_eq_ok_iff.trans ?_
    constructor
    · rintro ⟨n, hn, hs⟩
      exact ⟨_, ⟨n, hn, rfl⟩, hs⟩
    · rintro ⟨_, ⟨n, hn, rfl⟩, hs⟩
      exact ⟨n, hn, hs⟩
  rw [RecordReader.enter_field hi, hhas, hread]

/-- Entering the members of a map fills each field with its values, whatever members are between
them. -/
theorem enterAll_iff {ms : List Member} (hms : ∀ m ∈ ms, IsValue m.value) {s s' : PartialConfig} :
    reader.EnterAll s ms s' ↔
      Filled writeLayout s.layout (valuesOf "bits_in_chunk" ms) s'.layout ∧
      Filled writeLimit s.memoryLimit (valuesOf "memory_limit" ms) s'.memoryLimit := by
  induction ms generalizing s with
  | nil =>
    obtain ⟨layout, limit⟩ := s'
    simp only [RecordReader.EnterAll, valuesOf_nil, Filled]
    constructor
    · rintro rfl
      exact ⟨rfl, rfl⟩
    · rintro ⟨rfl, rfl⟩
      rfl
  | cons m ms ih =>
    rw [List.forall_mem_cons] at hms
    simp only [RecordReader.EnterAll, ih hms.2]
    have hi := index?_reader m.key
    split at hi
    · next hkey =>
      have hne : m.key ≠ "memory_limit".toList := by rw [hkey]; decide
      rw [valuesOf_cons_self hkey, valuesOf_cons_of_ne hne]
      simp only [enter_layout_iff hms.1 hi]
      constructor
      · rintro ⟨_, ⟨hnone, l, hv, rfl⟩, hlayout, hlimit⟩
        obtain ⟨hvs, hlayout⟩ := filled_some.mp hlayout
        exact ⟨⟨hnone, hvs, l, hv, hlayout⟩, hlimit⟩
      · rintro ⟨⟨hnone, hvs, l, hv, hlayout⟩, hlimit⟩
        exact ⟨_, ⟨hnone, l, hv, rfl⟩, filled_some.mpr ⟨hvs, hlayout⟩, hlimit⟩
    · next hbits =>
      split at hi
      · next hkey =>
        rw [valuesOf_cons_of_ne hbits, valuesOf_cons_self hkey]
        simp only [enter_limit_iff hms.1 hi]
        constructor
        · rintro ⟨_, ⟨hnone, l, hv, rfl⟩, hlayout, hlimit⟩
          obtain ⟨hvs, hlimit⟩ := filled_some.mp hlimit
          exact ⟨hlayout, hnone, hvs, l, hv, hlimit⟩
        · rintro ⟨hlayout, hnone, hvs, l, hv, hlimit⟩
          exact ⟨_, ⟨hnone, l, hv, rfl⟩, hlayout, filled_some.mpr ⟨hvs, hlimit⟩⟩
      · next hlimit =>
        rw [valuesOf_cons_of_ne hbits, valuesOf_cons_of_ne hlimit]
        simp only [RecordReader.enter_unknown hi, exists_eq_left]

/-! ## Which texts are accepted -/

theorem filled_none {α : Type} {write : α → List Char} {values : List (List Char)}
    {after : Option α} :
    Filled write none values after ↔
      values = [] ∧ after = none ∨ ∃ x, values = [write x] ∧ after = some x := by
  cases values with
  | nil => simp [Filled]
  | cons v vs =>
    simp only [Filled, true_and, reduceCtorEq, false_and, false_or, List.cons.injEq]
    constructor
    · rintro ⟨hvs, x, hv, hx⟩
      exact ⟨x, ⟨hv, hvs⟩, hx⟩
    · rintro ⟨x, ⟨hv, hvs⟩, hx⟩
      exact ⟨hvs, x, hv, hx⟩

theorem Filled.of_perm {α : Type} {write : α → List Char} {values values' : List (List Char)}
    {after : Option α} (hperm : values.Perm values') (h : Filled write none values after) :
    Filled write none values' after := by
  rw [filled_none] at h ⊢
  rcases h with ⟨rfl, hafter⟩ | ⟨x, rfl, hafter⟩
  · exact .inl ⟨hperm.nil_eq.symm, hafter⟩
  · exact .inr ⟨x, (List.singleton_perm.mp hperm).symm, hafter⟩

theorem exists_filled_iff {α : Type} {write : α → List Char} {values : List (List Char)} :
    (∃ after, Filled write none values after) ↔
      values.length ≤ 1 ∧ ∀ v ∈ values, ∃ x, v = write x := by
  simp only [filled_none]
  constructor
  · rintro ⟨_, ⟨rfl, -⟩ | ⟨x, rfl, -⟩⟩
    · simp
    · exact ⟨Nat.le_refl 1, fun v hv => ⟨x, List.mem_singleton.mp hv⟩⟩
  · rintro ⟨hlength, hwritten⟩
    match values, hlength with
    | [], _ => exact ⟨none, .inl ⟨rfl, rfl⟩⟩
    | [v], _ =>
      obtain ⟨x, rfl⟩ := hwritten v (by simp)
      exact ⟨some x, .inr ⟨x, rfl, rfl⟩⟩

/-- The settings that a text holds are the ones that its members fill in, with the defaults for the
rest. -/
theorem ofJson_eq_ok_iff {ms : List Member} {text : String} (h : IsObject ms text.toList)
    {c : Config} :
    ofJson text = .ok c ↔
      ∃ layout limit,
        Filled writeLayout none (valuesOf "bits_in_chunk" ms) layout ∧
        Filled writeLimit none (valuesOf "memory_limit" ms) limit ∧
        ofPartial ⟨layout, limit⟩ = c := by
  have hread : ofJson text = .ok c ↔ readText read text = .ok c := by
    unfold ofJson
    split
    · next h => simp [h]
    · next h => simp [h]
  have hrecord : readText read text = .ok c ↔
      ∃ s, reader.EnterAll reader.start ms s ∧ Except.ok (ofPartial s) = Except.ok c :=
    RecordReader.readText_record_eq_ok_iff h fun m hm => takes_of_isValue (h.isValue m hm)
  rw [hread, hrecord]
  simp only [enterAll_iff h.isValue, Except.ok.injEq]
  constructor
  · rintro ⟨s, ⟨hlayout, hlimit⟩, hs⟩
    exact ⟨s.layout, s.memoryLimit, hlayout, hlimit, hs⟩
  · rintro ⟨layout, limit, hlayout, hlimit, hs⟩
    exact ⟨⟨layout, limit⟩, ⟨hlayout, hlimit⟩, hs⟩

theorem exists_layout_iff : (∃ l : ChunkLayout, v = writeLayout l) ↔
    IsWhole v ∧ 5 ≤ digitsValue v ∧ digitsValue v ≤ 24 := by
  constructor
  · rintro ⟨l, rfl⟩
    rw [writeLayout, digitsValue_writeNat]
    exact ⟨isWhole_writeNat _, l.le_bits, l.bits_le⟩
  · rintro ⟨hv, hle, hle'⟩
    exact ⟨⟨digitsValue v, hle, hle'⟩, hv.eq_writeNat⟩

theorem exists_limit_iff : (∃ limit, v = writeLimit limit) ↔
    v = ['n', 'u', 'l', 'l'] ∨ IsWhole v ∧ digitsValue v < 2 ^ 64 := by
  constructor
  · rintro ⟨limit, rfl⟩
    cases limit with
    | none => exact .inl rfl
    | some n =>
      rw [writeLimit, digitsValue_writeNat]
      exact .inr ⟨isWhole_writeNat _, n.toNat_lt⟩
  · rintro (rfl | ⟨hv, hlt⟩)
    · exact ⟨none, rfl⟩
    · have hword : (digitsValue v).toUInt64.toNat = digitsValue v := Nat.mod_eq_of_lt hlt
      refine ⟨some (digitsValue v).toUInt64, ?_⟩
      rw [writeLimit, hword]
      exact hv.eq_writeNat

/-- The members that settings may have: each field at most once, the number of bits an integer
literal that a layout exists for, the limit `null` or an integer literal of 64 bits. -/
structure AcceptsMembers (ms : List Member) : Prop where
  bits_once : (valuesOf "bits_in_chunk" ms).length ≤ 1
  limit_once : (valuesOf "memory_limit" ms).length ≤ 1
  bits_in_range : ∀ v ∈ valuesOf "bits_in_chunk" ms,
    IsWhole v ∧ 5 ≤ digitsValue v ∧ digitsValue v ≤ 24
  limit_in_range : ∀ v ∈ valuesOf "memory_limit" ms,
    v = ['n', 'u', 'l', 'l'] ∨ IsWhole v ∧ digitsValue v < 2 ^ 64

/-- The settings that members give: what they say, and the defaults where they say nothing. -/
structure IsGivenBy (c : Config) (ms : List Member) : Prop where
  bits_eq : c.layout.bits =
    match (valuesOf "bits_in_chunk" ms).head? with
    | none => 12
    | some v => digitsValue v
  limit_eq : c.memoryLimit.map (·.toNat) =
    match (valuesOf "memory_limit" ms).head? with
    | none => none
    | some v => if v = ['n', 'u', 'l', 'l'] then none else some (digitsValue v)

/-- The members that are fields of settings. -/
def knownMembers (ms : List Member) : List Member :=
  ms.filter fun m => m.key == "bits_in_chunk".toList || m.key == "memory_limit".toList

theorem valuesOf_knownMembers {key : String} (hkey : key = "bits_in_chunk" ∨ key = "memory_limit")
    (ms : List Member) : valuesOf key (knownMembers ms) = valuesOf key ms := by
  have hknown (m : Member) : (m.key == key.toList && (m.key == "bits_in_chunk".toList ||
      m.key == "memory_limit".toList)) = (m.key == key.toList) := by
    rcases hkey with rfl | rfl
    · cases m.key == "bits_in_chunk".toList <;> rfl
    · cases m.key == "memory_limit".toList <;> simp
  simp only [valuesOf, knownMembers, List.filter_filter, hknown]

theorem valuesOf_perm_of_knownMembers {key : String}
    (hkey : key = "bits_in_chunk" ∨ key = "memory_limit") {ms ms' : List Member}
    (h : (knownMembers ms').Perm (knownMembers ms)) :
    (valuesOf key ms').Perm (valuesOf key ms) := by
  rw [← valuesOf_knownMembers hkey ms', ← valuesOf_knownMembers hkey ms]
  exact valuesOf_perm h

/-- What is read from a text that is a map with these members. -/
structure ReadsMembers (ms : List Member) (text : String) : Prop where
  /-- The text is accepted if its known members are. -/
  accepts : (∃ c, ofJson text = .ok c) ↔ AcceptsMembers ms
  /-- The settings are the ones that the members give. -/
  result : ∀ c, ofJson text = .ok c → c.IsGivenBy ms
  /-- A text that is not accepted is refused with one message. -/
  refusal : ∀ e, ofJson text = .error e → e.message = "Failed to parse accumulator config"
  /-- A text with the same known members in any order gives the same settings, whatever else is in
  it. -/
  invariant : ∀ {ms' : List Member} {text' : String}, IsObject ms' text'.toList →
    (knownMembers ms').Perm (knownMembers ms) → ∀ c, ofJson text' = .ok c ↔ ofJson text = .ok c

theorem isGivenBy_of_filled {ms : List Member} {layout : Option ChunkLayout}
    {limit : Option (Option UInt64)}
    (hlayout : Filled writeLayout none (valuesOf "bits_in_chunk" ms) layout)
    (hlimit : Filled writeLimit none (valuesOf "memory_limit" ms) limit) :
    (ofPartial ⟨layout, limit⟩).IsGivenBy ms where
  bits_eq := by
    rcases filled_none.mp hlayout with ⟨hvalues, rfl⟩ | ⟨l, hvalues, rfl⟩
    · rw [hvalues]
      rfl
    · rw [hvalues]
      exact (digitsValue_writeNat l.bits).symm
  limit_eq := by
    rcases filled_none.mp hlimit with ⟨hvalues, rfl⟩ | ⟨n, hvalues, rfl⟩
    · rw [hvalues]
      rfl
    · rw [hvalues]
      cases n with
      | none => rfl
      | some n =>
        have hne : writeNat n.toNat ≠ ['n', 'u', 'l', 'l'] := fun h =>
          absurd ((isWhole_writeNat n.toNat).1.2 'n' (by simp [h])) (by decide)
        simp [ofPartial, writeLimit, hne, digitsValue_writeNat]

/-- The settings in a map are read as its members give them. -/
theorem ofJson_readsMembers {ms : List Member} {text : String} (h : IsObject ms text.toList) :
    ReadsMembers ms text where
  accepts := by
    have hexists : (∃ c, ofJson text = .ok c) ↔
        (∃ layout, Filled writeLayout none (valuesOf "bits_in_chunk" ms) layout) ∧
          ∃ limit, Filled writeLimit none (valuesOf "memory_limit" ms) limit := by
      simp only [ofJson_eq_ok_iff h]
      constructor
      · rintro ⟨c, layout, limit, hlayout, hlimit, -⟩
        exact ⟨⟨layout, hlayout⟩, limit, hlimit⟩
      · rintro ⟨⟨layout, hlayout⟩, limit, hlimit⟩
        exact ⟨_, layout, limit, hlayout, hlimit, rfl⟩
    rw [hexists, exists_filled_iff, exists_filled_iff]
    simp only [exists_layout_iff, exists_limit_iff]
    constructor
    · rintro ⟨⟨hbits, hbits'⟩, hlimit, hlimit'⟩
      exact ⟨hbits, hlimit, hbits', hlimit'⟩
    · rintro ⟨hbits, hlimit, hbits', hlimit'⟩
      exact ⟨⟨hbits, hbits'⟩, hlimit, hlimit'⟩
  result c hc := by
    obtain ⟨layout, limit, hlayout, hlimit, rfl⟩ := (ofJson_eq_ok_iff h).mp hc
    exact isGivenBy_of_filled hlayout hlimit
  refusal e he := by
    unfold ofJson at he
    split at he
    · contradiction
    · cases he
      rfl
  invariant := by
    intro ms' text' h' hperm c
    have hbits := valuesOf_perm_of_knownMembers (.inl rfl) hperm
    have hlimit := valuesOf_perm_of_knownMembers (.inr rfl) hperm
    rw [ofJson_eq_ok_iff h, ofJson_eq_ok_iff h']
    constructor
    · rintro ⟨layout, limit, hlayout, hlimit', hc⟩
      exact ⟨layout, limit, hlayout.of_perm hbits, hlimit'.of_perm hlimit, hc⟩
    · rintro ⟨layout, limit, hlayout, hlimit', hc⟩
      exact ⟨layout, limit, hlayout.of_perm hbits.symm, hlimit'.of_perm hlimit.symm, hc⟩

/-- A key with an escape, behind a member that is no field: its value is nested, and holds half of a
surrogate pair. -/
theorem ofJson_readsMembers_of_escaped_key :
    ∃ ms text, text = "\x7b\"x\":[\x7b\x7d, \"\\ud800\"], \"\\u0062its_in_chunk\": 7\x7d" ∧
      IsObject ms text.toList ∧ ReadsMembers ms text ∧
      ofJson text = .ok ⟨⟨7, by decide, by decide⟩, none⟩ := by
  have hblank : AllBlank [' '] := by decide
  have hempty : IsValue ['{', '}'] := .empty (k := .map) allBlank_nil
  have hhalf : IsValue ['"', '\\', 'u', 'd', '8', '0', '0', '"'] :=
    .string (.numbered (n := 0xD800) (by decide) .nil)
  have hlist : IsValue (Container.sequence.opening ::
      (['{', '}'] ++ ',' :: ' ' :: ['"', '\\', 'u', 'd', '8', '0', '0', '"'] ++
        [Container.sequence.close])) :=
    .container (.more (.item .sequence allBlank_nil hempty allBlank_nil)
      (.last (.item .sequence hblank hhalf allBlank_nil)))
  have hkey : Spells ("\\u0062".toList ++ "its_in_chunk".toList) "bits_in_chunk".toList :=
    .numbered (n := 0x62) (by decide) (by decide) (by decide) (spells_self (by decide))
  have hother := IsMember.mk allBlank_nil (spells_self (s := ['x']) (by decide)) allBlank_nil
    allBlank_nil hlist allBlank_nil
  have hbits := IsMember.mk hblank hkey allBlank_nil hblank (isValue_writeNat 7) allBlank_nil
  have hobject := IsObject.mk allBlank_nil (.members (.more hother (.last hbits))) allBlank_nil
  have hread : ReadsMembers _ "\x7b\"x\":[\x7b\x7d, \"\\ud800\"], \"\\u0062its_in_chunk\": 7\x7d" :=
    ofJson_readsMembers hobject
  obtain ⟨c, hc⟩ := hread.accepts.mpr
    { bits_once := by decide
      limit_once := by decide
      bits_in_range := by
        intro v hv
        obtain rfl := List.mem_singleton.mp hv
        exact ⟨isWhole_writeNat 7, by decide, by decide⟩
      limit_in_range := fun v hv => absurd hv (by simp [valuesOf]) }
  obtain ⟨hbits, hlimit⟩ := hread.result c hc
  refine ⟨_, _, rfl, hobject, hread, ?_⟩
  obtain ⟨⟨bits, _, _⟩, limit⟩ := c
  obtain rfl : bits = 7 := hbits
  obtain rfl : limit = none := Option.map_eq_none_iff.mp hlimit
  exact hc

end Config

end GroupedExtrema
