import GroupedExtrema.Proofs.Json.Config

/-!
# What is written is read back

Every value that has a JSON form is read from its own text: settings, data types and aggregates. Each
writer is followed by its reader inside of a larger text (`ReadsAs`), so that a type can be read as
the content of a variant and a variant as the field of a record.
-/

namespace GroupedExtrema

namespace Json

/-! ## Maps and names -/

/-- Members that `writeMap` can write: their names need no escapes, and their values are values. -/
def AreWritable (ms : List (String × List Char)) : Prop :=
  ∀ m ∈ ms, ArePlain m.1.toList ∧ IsValue m.2

theorem areWritable_nil : AreWritable [] := by simp [AreWritable]

theorem AreWritable.cons {name : String} {v : List Char} {ms : List (String × List Char)}
    (h : AreWritable ms) (hname : ArePlain name.toList) (hv : IsValue v) :
    AreWritable ((name, v) :: ms) :=
  List.forall_mem_cons.mpr ⟨⟨hname, hv⟩, h⟩

/-- The members that `writeMap` writes. -/
def writtenMembers (ms : List (String × List Char)) : List Member :=
  ms.map fun m => ⟨m.1.toList, m.2⟩

theorem isMember_writeName {name : String} (hname : ArePlain name.toList) {v : List Char}
    (hv : IsValue v) : IsMember ⟨name.toList, v⟩ (writeName name ++ ':' :: v) := by
  simpa [writeName] using
    IsMember.mk allBlank_nil (spells_self hname) allBlank_nil allBlank_nil hv allBlank_nil

theorem isMembers_writeMembers {m : String × List Char} {ms : List (String × List Char)}
    (h : AreWritable (m :: ms)) :
    IsMembers (writtenMembers (m :: ms)) (writeMembers (m :: ms)) := by
  induction ms generalizing m with
  | nil =>
    obtain ⟨hname, hv⟩ := h m (by simp)
    exact .last (isMember_writeName hname hv)
  | cons m' ms ih =>
    rw [AreWritable, List.forall_mem_cons] at h
    have hmore := IsMembers.more (isMember_writeName h.1.1 h.1.2) (ih h.2)
    simpa [writeMembers, writtenMembers] using hmore

theorem isMap_writeMap {m : String × List Char} {ms : List (String × List Char)}
    (h : AreWritable (m :: ms)) :
    IsMap (writtenMembers (m :: ms)) (writeMap (m :: ms)) :=
  .members (isMembers_writeMembers h)

theorem isValue_writeName {name : String} (hname : ArePlain name.toList) :
    IsValue (writeName name) :=
  .string (spells_self hname).isStringBody

/-! ## Integers -/

theorem readsAs_writeInt {t : IntegerRange} {i : Int} (hfits : FitsWord i) (hleast : t.least ≤ i)
    (hgreatest : i ≤ t.greatest) : ReadsAs (readInteger t) (writeInt i) i :=
  fun _ _ ha hrest => (readInteger_append_eq_ok_iff (isValue_writeInt i) ha hrest).mpr
    ⟨⟨rfl, hfits, hleast, hgreatest⟩, rfl⟩

theorem readsAs_writeNat {t : IntegerRange} {n : Nat} (hlt : n < 2 ^ 64) (hleast : t.least ≤ 0)
    (hgreatest : (n : Int) ≤ t.greatest) : ReadsAs (readInteger t) (writeNat n) (n : Int) :=
  readsAs_writeInt (i := n) ⟨by omega, by omega⟩ (by omega) hgreatest

/-! ## Variants -/

namespace VariantReader

variable {α : Type} {V : VariantReader α} {name : String} {i : Nat} {x : α}

theorem readName_append (hname : ArePlain name.toList)
    (hi : V.names.findIdx? (·.toList == name.toList) = some i) (rest : List Char) :
    V.readName (name.toList ++ '"' :: rest) = .ok (i, rest) := by
  rw [readName, readString_append (spells_self hname)]
  simp [hi]

/-- A variant without content is read from its name. -/
theorem readsAs_writeName (hname : ArePlain name.toList)
    (hi : V.names.findIdx? (·.toList == name.toList) = some i) (hbare : V.bare i = some x) :
    ReadsAs V.readVariant (writeName name) x := by
  intro a rest ha _
  have htext : a ++ (writeName name ++ rest) = a ++ '"' :: (name.toList ++ '"' :: rest) := by
    simp [writeName]
  rw [htext, readVariant, skipBlank_append_cons ha (by decide)]
  simp only [readName_append hname hi, hbare]

/-- A variant with content is read from the map of its name to the content. -/
theorem readsAs_writeMap {v : List Char} (hname : ArePlain name.toList)
    (hi : V.names.findIdx? (·.toList == name.toList) = some i) (hbare : V.bare i = none)
    (hv : ReadsAs (V.content i) v x) : ReadsAs V.readVariant (writeMap [(name, v)]) x := by
  intro a rest ha _
  have htext : a ++ (writeMap [(name, v)] ++ rest) =
      a ++ '{' :: '"' :: (name.toList ++ '"' :: ':' :: (v ++ '}' :: rest)) := by
    simp [writeMap, writeMembers, writeName]
  have hcontent : V.content i (v ++ '}' :: rest) = .ok (x, '}' :: rest) :=
    hv allBlank_nil (by simp [continuesNumber])
  have hcolon : expectColon (':' :: (v ++ '}' :: rest)) = .ok (v ++ '}' :: rest) :=
    expectColon_append allBlank_nil _
  have hend : endMap ('}' :: rest) = .ok rest := endMap_append allBlank_nil rest
  rw [htext, readVariant, skipBlank_append_cons ha (by decide)]
  simp only [skipBlank_cons (by decide : isBlank '"' = false), readName_append hname hi,
    readContent, hcolon, hbare, hcontent, hend]

end VariantReader

/-! ## Records -/

namespace RecordReader

variable {σ : Type} {R : RecordReader σ} {m : Member} {i : Nat} {f : σ → σ}

/-- A member is the text of a field, and reading it does `f` to the partial record. -/
structure Fills (R : RecordReader σ) (m : Member) (i : Nat) (f : σ → σ) : Prop where
  index_eq : R.index? m.key = some i
  reads : ∀ s, ReadsAs (R.read i s) m.value (f s)

theorem Fills.takes (h : R.Fills m i f) : R.Takes m := by
  intro j hj s
  obtain rfl := Option.some.inj (h.index_eq.symm.trans hj)
  exact (h.reads s).takesWhole

theorem Fills.enter (h : R.Fills m i f) {s : σ} (hhas : R.has s i = false) : R.Enter s m (f s) :=
  (enter_field h.index_eq).mpr ⟨hhas, (h.reads s).alone⟩

/-- A record is read from the map that its fields are written to. -/
theorem readsAs_writeMap {ρ : Type} {ofMap : σ → Except Error ρ}
    {ofSequence : Nat → σ → Except Error ρ} {p : String × List Char}
    {ps : List (String × List Char)} {s : σ} {x : ρ}
    (hps : AreWritable (p :: ps))
    (htakes : ∀ m ∈ writtenMembers (p :: ps), R.Takes m)
    (hall : R.EnterAll R.start (writtenMembers (p :: ps)) s) (hx : ofMap s = .ok x) :
    ReadsAs (R.readRecord ofMap ofSequence) (writeMap (p :: ps)) x :=
  fun _ _ ha _ => (readRecord_eq_ok_iff (isMap_writeMap hps) htakes ha).mpr ⟨⟨s, hall, hx⟩, rfl⟩

end RecordReader

end Json

open Json

/-! ## Data types -/

namespace DecimalType

theorem fills_precision (p : UInt8) :
    reader.Fills ⟨"precision".toList, writeNat p.toNat⟩ 0
      fun s => { s with precision := some p } where
  index_eq := rfl
  reads s a rest ha hrest := by
    have hlt := p.toNat_lt
    have hle : (p.toNat : Int) ≤ 2 ^ 8 - 1 := by omega
    have h := readsAs_writeNat (t := .unsigned8) (by omega) (Int.le_refl 0) hle ha hrest
    simp [reader, readField, h]

theorem fills_scale (n : Int8) :
    reader.Fills ⟨"scale".toList, writeInt n.toInt⟩ 1 fun s => { s with scale := some n } where
  index_eq := rfl
  reads s a rest ha hrest := by
    have hge := n.le_toInt
    have hlt := n.toInt_lt
    have hfits : FitsWord n.toInt := ⟨by omega, by omega⟩
    have hle : n.toInt ≤ 2 ^ 7 - 1 := by omega
    have h : readInteger .signed8 (a ++ (writeInt n.toInt ++ rest)) = .ok (n.toInt, rest) :=
      readsAs_writeInt hfits hge hle ha hrest
    simp [reader, readField, h]

theorem areWritable (t : DecimalType) :
    AreWritable [("precision", writeNat t.precision.toNat), ("scale", writeInt t.scale.toInt)] :=
  (areWritable_nil.cons (by decide) (isValue_writeInt _)).cons (by decide) (isValue_writeNat _)

theorem isValue_write (t : DecimalType) : IsValue t.write := (isMap_writeMap t.areWritable).isValue

theorem readsAs_write (t : DecimalType) : ReadsAs read t.write t := by
  have hprecision := fills_precision t.precision
  have hscale := fills_scale t.scale
  exact RecordReader.readsAs_writeMap t.areWritable
    (by simpa [writtenMembers] using ⟨hprecision.takes, hscale.takes⟩)
    ⟨_, hprecision.enter rfl, _, hscale.enter rfl, rfl⟩ rfl

end DecimalType

namespace DataType

theorem areWritable_decimal128 (t : DecimalType) : AreWritable [("Decimal128", t.write)] :=
  areWritable_nil.cons (by decide) t.isValue_write

theorem isValue_write (t : DataType) : IsValue t.write := by
  cases t with
  | decimal128 t => exact (isMap_writeMap (areWritable_decimal128 t)).isValue
  | _ => exact isValue_writeName (by decide)

theorem readsAs_write (t : DataType) : ReadsAs read t.write t := by
  cases t with
  | decimal128 t =>
    have hcontent : ReadsAs (reader.content 6) t.write (.decimal128 t) := fun _ _ ha hrest => by
      simp [reader, readContent, t.readsAs_write ha hrest]
    exact VariantReader.readsAs_writeMap (by decide) rfl rfl hcontent
  | _ => exact VariantReader.readsAs_writeName (by decide) rfl rfl

/-- A data type is read from its text. -/
theorem ofJson_toJson (t : DataType) : ofJson t.toJson = .ok t := t.readsAs_write.readText

end DataType

namespace Extremum

theorem isValue_write (x : Extremum) : IsValue x.write := by
  cases x <;> exact isValue_writeName (by decide)

theorem readsAs_write (x : Extremum) : ReadsAs read x.write x := by
  cases x <;> exact VariantReader.readsAs_writeName (by decide) rfl rfl

end Extremum

/-! ## Aggregates -/

namespace AggregateSpec

theorem fills_input (n : UInt64) :
    reader.Fills ⟨"input".toList, writeNat n.toNat⟩ 0 fun s => { s with input := some n } where
  index_eq := rfl
  reads s a rest ha hrest := by
    have hlt := n.toNat_lt
    have hle : (n.toNat : Int) ≤ 2 ^ 64 - 1 := by omega
    have h := readsAs_writeNat (t := .size) hlt (Int.le_refl 0) hle ha hrest
    simp [reader, readField, h]

theorem fills_extremum (x : Extremum) :
    reader.Fills ⟨"kind".toList, x.write⟩ 1 fun s => { s with extremum := some x } where
  index_eq := rfl
  reads s a rest ha hrest := by simp [reader, readField, x.readsAs_write ha hrest]

theorem fills_datatype (t : DataType) :
    reader.Fills ⟨"datatype".toList, t.write⟩ 2 fun s => { s with datatype := some t } where
  index_eq := rfl
  reads s a rest ha hrest := by simp [reader, readField, t.readsAs_write ha hrest]

theorem areWritable (s : AggregateSpec) :
    AreWritable [("input", writeNat s.input.toNat), ("kind", s.extremum.write),
      ("datatype", s.datatype.write)] :=
  ((areWritable_nil.cons (by decide) s.datatype.isValue_write).cons (by decide)
    s.extremum.isValue_write).cons (by decide) (isValue_writeNat _)

theorem readsAs_write (s : AggregateSpec) : ReadsAs read s.write s := by
  have hinput := fills_input s.input
  have hextremum := fills_extremum s.extremum
  have hdatatype := fills_datatype s.datatype
  exact RecordReader.readsAs_writeMap s.areWritable
    (by simpa [writtenMembers] using ⟨hinput.takes, hextremum.takes, hdatatype.takes⟩)
    ⟨_, hinput.enter rfl, _, hextremum.enter rfl, _, hdatatype.enter rfl, rfl⟩ rfl

/-- An aggregate is read from its text. -/
theorem ofJson_toJson (s : AggregateSpec) : ofJson s.toJson = .ok s := s.readsAs_write.readText

end AggregateSpec

/-! ## Settings -/

namespace Config

theorem write_eq (c : Config) : c.write =
    writeMap [("bits_in_chunk", writeLayout c.layout), ("memory_limit", writeLimit c.memoryLimit)] := by
  obtain ⟨layout, limit⟩ := c
  cases limit <;> rfl

theorem isValue_writeLimit (limit : Option UInt64) : IsValue (writeLimit limit) := by
  cases limit with
  | none => exact .word mem_valueWords_null
  | some n => exact isValue_writeNat n.toNat

theorem isObject_toJson (c : Config) :
    IsObject [⟨"bits_in_chunk".toList, writeLayout c.layout⟩,
      ⟨"memory_limit".toList, writeLimit c.memoryLimit⟩] c.toJson.toList := by
  have hwritable : AreWritable [("bits_in_chunk", writeLayout c.layout),
      ("memory_limit", writeLimit c.memoryLimit)] :=
    (areWritable_nil.cons (by decide) (isValue_writeLimit _)).cons (by decide) (isValue_writeNat _)
  have hobject := IsObject.mk allBlank_nil (isMap_writeMap hwritable) allBlank_nil
  simpa [toJson, write_eq, writtenMembers] using hobject

/-- Settings are read from their text. -/
theorem ofJson_toJson (c : Config) : ofJson c.toJson = .ok c :=
  (ofJson_eq_ok_iff c.isObject_toJson).mpr
    ⟨some c.layout, some c.memoryLimit, filled_none.mpr (.inr ⟨c.layout, rfl, rfl⟩),
      filled_none.mpr (.inr ⟨c.memoryLimit, rfl, rfl⟩), rfl⟩

end Config

/-- Everything that has a JSON form is read back from what is written for it. Settings that any text
holds have a number of bits that a layout can have, since every layout is read as it stands in the
text, and they are read back as well. -/
theorem ofJson_toJson_all :
    (∀ c : Config, Config.ofJson c.toJson = .ok c) ∧
      (∀ t : DataType, DataType.ofJson t.toJson = .ok t) ∧
      (∀ s : AggregateSpec, AggregateSpec.ofJson s.toJson = .ok s) ∧
      (∀ (cs r : List Char) (l : ChunkLayout), Config.readLayout cs = .ok (l, r) ↔
        readInteger .unsigned32 cs = .ok ((l.bits : Int), r)) ∧
      ∀ (text : String) (c : Config), Config.ofJson text = .ok c →
        (5 ≤ c.layout.bits ∧ c.layout.bits ≤ 24) ∧ Config.ofJson c.toJson = .ok c :=
  ⟨Config.ofJson_toJson, DataType.ofJson_toJson, AggregateSpec.ofJson_toJson,
    fun _ _ _ => Config.readLayout_eq_ok_iff,
    fun _ c _ => ⟨⟨c.layout.le_bits, c.layout.bits_le⟩, c.ofJson_toJson⟩⟩

/-- Settings in the form of a sequence, with the largest limit there is. -/
theorem ofJson_toJson_all_of_sequence :
    ∃ c, Config.ofJson " [7 , 18446744073709551615]" = .ok c ∧ c.layout.bits = 7 ∧
      c.memoryLimit = some 18446744073709551615 ∧ Config.ofJson c.toJson = .ok c := by
  have hread : Config.ofJson " [7 , 18446744073709551615]" =
      .ok ⟨⟨7, by decide, by decide⟩, some 18446744073709551615⟩ := rfl
  exact ⟨_, hread, rfl, rfl, (ofJson_toJson_all.2.2.2.2 _ _ hread).2⟩

end GroupedExtrema
