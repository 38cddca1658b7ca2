import GroupChat.Greet.Decode
import GroupChat.Proofs.Words

/-!
# What the records of a greet message say

A greet message is taken in record by record, later values in place of earlier ones or behind them. What comes
of that can be told field by field. Main statement: the records of a message are taken in exactly if each has a
value that its field admits, and then every list has the values of its field in their order, and everything
else is what the last value of its field says.
-/

namespace GroupChat.Greet

namespace Field

variable {field other : Field} {value : Bytes} {records : List Record}

/-- The values that a field may have in a greet message, after its signature. -/
def Admits : Field → Bytes → Prop
  | .version, value => value = [1]
  | .category, value => value = [2]
  | .kind, value => value.length = 2
  | .padding, _ | .source, _ | .dest, _ | .member, _ | .intKey, _ | .nonce, _ | .pubKey, _
  | .sessionSignature, _ | .signingKey, _ => True
  | .signature, _ | .payload, _ | .initialVector, _ | .sessionHint, _ => False

/-- The values of the records with this field's tag, in their order. -/
def values (field : Field) (records : List Record) : List Bytes :=
  (records.filter (·.tag == field.tag)).map Record.value

/-- Where a single value is meant, the last one counts. -/
def value? (field : Field) (records : List Record) : Option Bytes := (field.values records).getLast?

theorem ofTag?_tag (field : Field) : ofTag? field.tag = some field := by
  cases field <;> rfl

theorem tag_injective : Function.Injective tag := by
  intro first second htag
  apply Option.some.inj
  rw [← ofTag?_tag first, htag, ofTag?_tag]

theorem tag_of_ofTag? {tag : UInt16} (hfield : ofTag? tag = some field) : field.tag = tag :=
  beq_iff_eq.1 (List.find?_some (p := fun other : Field => other.tag == tag) hfield)

theorem tag_beq_tag : (other.tag == field.tag) = decide (other = field) := by
  rw [Bool.beq_eq_decide_eq]
  exact decide_eq_decide.2 tag_injective.eq_iff

theorem eq_record_of_tag {record : Record} (htag : record.tag = field.tag) :
    record = field.record record.value := by
  rw [Field.record, ← htag]

theorem mem_values_iff : value ∈ field.values records ↔ field.record value ∈ records := by
  simp only [values, List.mem_map, List.mem_filter, beq_iff_eq]
  constructor
  · rintro ⟨⟨tag, _⟩, ⟨hmem, rfl⟩, rfl⟩
    exact hmem
  · exact fun hmem => ⟨field.record value, ⟨hmem, rfl⟩, rfl⟩

theorem exists_record_mem_cons_iff :
    (∃ value', field.record value' ∈ other.record value :: records) ↔
      other = field ∨ ∃ value', field.record value' ∈ records := by
  constructor
  · rintro ⟨value', hmem⟩
    rcases List.mem_cons.1 hmem with heq | hmem
    · exact Or.inl (tag_injective (congrArg Record.tag heq)).symm
    · exact Or.inr ⟨value', hmem⟩
  · rintro (rfl | ⟨value', hmem⟩)
    · exact ⟨value, List.mem_cons_self⟩
    · exact ⟨value', List.mem_cons_of_mem _ hmem⟩

theorem values_append (field : Field) (first second : List Record) :
    field.values (first ++ second) = field.values first ++ field.values second := by
  rw [values, List.filter_append, List.map_append]
  rfl

theorem values_record_cons (field other : Field) (value : Bytes) (records : List Record) :
    field.values (other.record value :: records) =
      (if other = field then [value] else []) ++ field.values records := by
  have htag : ((other.record value).tag == field.tag) = decide (other = field) := tag_beq_tag
  rw [values, List.filter_cons, htag]
  by_cases heq : other = field
  · rw [decide_eq_true heq, if_pos rfl, if_pos heq]
    rfl
  · rw [decide_eq_false heq, if_neg Bool.false_ne_true, if_neg heq]
    rfl

theorem values_append_record (field other : Field) (value : Bytes) (records : List Record) :
    field.values (records ++ [other.record value]) =
      field.values records ++ if other = field then [value] else [] := by
  rw [values_append, values_record_cons]
  exact congrArg _ (List.append_nil _)

theorem value?_append_record (field other : Field) (value : Bytes) (records : List Record) :
    field.value? (records ++ [other.record value]) =
      if other = field then some value else field.value? records := by
  rw [value?, values_append_record]
  split
  · exact List.getLast?_concat
  · rw [List.append_nil, value?]

theorem isSome_value?_append_record (field other : Field) (value : Bytes) (records : List Record) :
    (field.value? (records ++ [other.record value])).isSome =
      ((field.value? records).isSome || decide (other = field)) := by
  rw [value?_append_record]
  by_cases heq : other = field
  · rw [if_pos heq, decide_eq_true heq, Bool.or_true, Option.isSome_some]
  · rw [if_neg heq, decide_eq_false heq, Bool.or_false]

theorem value?_eq_none_iff :
    field.value? records = none ↔ ¬∃ value, field.record value ∈ records := by
  simp only [value?, List.getLast?_eq_none_iff, List.eq_nil_iff_forall_not_mem, mem_values_iff,
    not_exists]

theorem isSome_value?_iff :
    (field.value? records).isSome = true ↔ ∃ value, field.record value ∈ records := by
  rw [Option.isSome_iff_ne_none, Ne, value?_eq_none_iff, not_not]

theorem exists_value?_eq_some (hpresent : ∃ value, field.record value ∈ records) :
    ∃ value, field.value? records = some value ∧ field.record value ∈ records := by
  cases hvalue : field.value? records with
  | none => exact absurd hpresent (value?_eq_none_iff.1 hvalue)
  | some value => exact ⟨value, rfl, mem_values_iff.1 (List.mem_of_getLast? hvalue)⟩

end Field

variable {field : Field} {value signature raw : Bytes} {record : Record} {records : List Record}

theorem fixedWidth_eq_ok_iff {width number : Nat} (hwidth : width ≤ Integer.maxWidth) :
    fixedWidth width record = .ok number ↔
      record.value.length = width ∧ Integer.ofBigEndian record.value = number := by
  unfold fixedWidth
  by_cases hlength : record.value.length = width
  · have hshort : ¬Integer.maxWidth < record.value.length := by omega
    rw [if_pos hlength, Record.integer_eq, Integer.decode, if_neg hshort]
    exact ⟨fun hok => ⟨hlength, Except.ok.inj hok⟩, fun hnumber => congrArg _ hnumber.2⟩
  · rw [if_neg hlength]
    exact iff_of_false (by rintro ⟨⟩) fun hnumber => hlength hnumber.1

theorem fixedWidth_one_eq_ok_iff {byte : UInt8} :
    fixedWidth 1 record = .ok byte.toNat ↔ record.value = [byte] := by
  rw [fixedWidth_eq_ok_iff (by decide), List.length_eq_one_iff]
  constructor
  · rintro ⟨⟨other, hvalue⟩, hnumber⟩
    rw [hvalue, Integer.ofBigEndian_singleton] at hnumber
    rw [hvalue, UInt8.toNat_inj.1 hnumber]
  · intro hvalue
    rw [hvalue]
    exact ⟨⟨byte, rfl⟩, Integer.ofBigEndian_singleton byte⟩

/-- Expecting a certain number of bytes, whatever number they are. -/
theorem expect_width_eq_ok_iff {α : Type} {result : Nat → α} {next : α} {width : Nat}
    (hwidth : width ≤ Integer.maxWidth) :
    (do
      let number ← fixedWidth width record
      return result number) = (.ok next : Except DecodeError α) ↔
        record.value.length = width ∧ next = result (Integer.ofBigEndian record.value) := by
  simp only [bind_eq_ok_iff, fixedWidth_eq_ok_iff hwidth]
  constructor
  · rintro ⟨_, ⟨hlength, rfl⟩, hresult⟩
    exact ⟨hlength, (Except.ok.inj hresult).symm⟩
  · rintro ⟨hlength, rfl⟩
    exact ⟨_, ⟨hlength, rfl⟩, rfl⟩

/-- Expecting one certain byte, and refusing every other one. -/
theorem expect_byte_eq_ok_iff {α : Type} {result : Nat → α} {next : α} (byte : UInt8)
    (refusal : Nat → FormatError) :
    (do
      let number ← fixedWidth 1 record
      if number ≠ byte.toNat then throw (.format (refusal number))
      return result number) = (.ok next : Except DecodeError α) ↔
        record.value = [byte] ∧ next = result byte.toNat := by
  rw [← fixedWidth_one_eq_ok_iff, bind_eq_ok_iff]
  constructor
  · rintro ⟨number, hnumber, hresult⟩
    by_cases heq : number = byte.toNat
    · subst heq
      rw [if_neg (not_not_intro rfl)] at hresult
      exact ⟨hnumber, (Except.ok.inj hresult).symm⟩
    · rw [if_pos heq] at hresult
      cases hresult
  · rintro ⟨hnumber, rfl⟩
    exact ⟨byte.toNat, hnumber, if_neg (not_not_intro rfl)⟩

def Kind.ofValue (value : Bytes) : Kind := ofNat (Integer.ofBigEndian value)

namespace Envelope

variable {envelope next : Envelope}

/-- A message with one more value of a field taken in. -/
def add (envelope : Envelope) : Field → Bytes → Envelope
  | .version, value => { envelope with version := some (Integer.ofBigEndian value) }
  | .kind, value =>
      let kind := Kind.ofValue value
      { envelope with
        message.kind := some kind, agreement := some kind.agreement, flow := some kind.flow }
  | .source, value => { envelope with message.source := value }
  | .dest, value => { envelope with message.dest := value }
  | .member, value => { envelope with message.members := envelope.message.members ++ [value] }
  | .intKey, value =>
      { envelope with
        message.intKeys := envelope.message.intKeys ++ [value]
        printedKeys := envelope.printedKeys ++ [Base64.encode value] }
  | .nonce, value => { envelope with message.nonces := envelope.message.nonces ++ [value] }
  | .pubKey, value => { envelope with message.pubKeys := envelope.message.pubKeys ++ [value] }
  | .sessionSignature, value => { envelope with message.sessionSignature := some value }
  | .signingKey, value => { envelope with message.signingKey := some value }
  | .padding, _ | .category, _ | .signature, _ | .payload, _ | .initialVector, _ | .sessionHint, _ =>
      envelope

/-- A value is taken in if and only if its field admits it. -/
theorem read_record_eq_ok_iff :
    envelope.read (field.record value) = .ok next ↔
      field.Admits value ∧ next = envelope.add field value := by
  cases field with
  | version =>
      refine (expect_byte_eq_ok_iff 1 .wrongVersion).trans (and_congr_right fun hvalue => ?_)
      cases hvalue
      exact Iff.rfl
  | category => exact expect_byte_eq_ok_iff 2 fun _ => .notGreet
  | kind => exact expect_width_eq_ok_iff (by decide)
  | signature | payload | initialVector | sessionHint =>
      exact iff_of_false (by rintro ⟨⟩) fun hadmits => hadmits.1
  | _ => exact ⟨fun hok => ⟨trivial, (Except.ok.inj hok).symm⟩, fun hadd => congrArg _ hadd.2.symm⟩

theorem read_eq_ok_iff :
    envelope.read record = .ok next ↔
      ∃ field value, record = Field.record field value ∧ field.Admits value ∧
        next = envelope.add field value := by
  cases hfield : Field.ofTag? record.tag with
  | none =>
      simp only [read, hfield]
      refine iff_of_false (by rintro ⟨⟩) ?_
      rintro ⟨field, value, rfl, -⟩
      rw [Field.record, Field.ofTag?_tag] at hfield
      cases hfield
  | some field =>
      have hrecord := Field.eq_record_of_tag (Field.tag_of_ofTag? hfield).symm
      rw [hrecord, read_record_eq_ok_iff]
      constructor
      · exact fun hadmits => ⟨field, record.value, rfl, hadmits⟩
      · rintro ⟨other, value, heq, hadmits⟩
        cases Field.tag_injective (congrArg Record.tag heq)
        cases congrArg Record.value heq
        exact hadmits

end Envelope

/-- What the records of a message say, field by field. -/
def Message.ofRecords (records : List Record) : Message where
  source := (Field.source.value? records).getD []
  dest := (Field.dest.value? records).getD []
  kind := (Field.kind.value? records).map Kind.ofValue
  members := Field.member.values records
  intKeys := Field.intKey.values records
  nonces := Field.nonce.values records
  pubKeys := Field.pubKey.values records
  sessionSignature := Field.sessionSignature.value? records
  signingKey := Field.signingKey.value? records

/-- What is taken in from the records of a message, before its signature is looked at. -/
def Envelope.ofRecords (signature raw : Bytes) (records : List Record) : Envelope where
  message := Message.ofRecords records
  agreement := (Field.kind.value? records).map fun value => (Kind.ofValue value).agreement
  flow := (Field.kind.value? records).map fun value => (Kind.ofValue value).flow
  printedKeys := (Field.intKey.values records).map Base64.encode
  version := (Field.version.value? records).map Integer.ofBigEndian
  signature := signature
  raw := raw

/-- With one more record, one more value is taken in. -/
theorem Envelope.add_ofRecords (field : Field) (value : Bytes) :
    (ofRecords signature raw records).add field value =
      ofRecords signature raw (records ++ [field.record value]) := by
  cases field <;>
    simp [add, ofRecords, Message.ofRecords, Field.values_append_record, Field.value?_append_record]

namespace Draft

variable {draft next : Draft}

def add (draft : Draft) (field : Field) (value : Bytes) : Draft where
  envelope := draft.envelope.add field value
  hasSource := draft.hasSource || decide (field = .source)
  hasDest := draft.hasDest || decide (field = .dest)

theorem read_eq_ok_iff :
    draft.read record = .ok next ↔
      ∃ field value, record = Field.record field value ∧ field.Admits value ∧
        next = draft.add field value := by
  have hadd : ∀ (field : Field) (value : Bytes),
      { envelope := draft.envelope.add field value
        hasSource := draft.hasSource || (field.record value).tag == Field.source.tag
        hasDest := draft.hasDest || (field.record value).tag == Field.dest.tag } =
        draft.add field value := by
    intro field value
    simp only [add, Field.record, Field.tag_beq_tag]
  simp only [read, bind_eq_ok_iff, Envelope.read_eq_ok_iff]
  constructor
  · rintro ⟨_, ⟨field, value, rfl, hadmits, rfl⟩, hnext⟩
    exact ⟨field, value, rfl, hadmits, (Except.ok.inj hnext).symm.trans (hadd field value)⟩
  · rintro ⟨field, value, rfl, hadmits, rfl⟩
    exact ⟨_, ⟨field, value, rfl, hadmits, rfl⟩, congrArg Except.ok (hadd field value)⟩

/-- What a draft is after some records. -/
def ofRecords (signature raw : Bytes) (records : List Record) : Draft where
  envelope := .ofRecords signature raw records
  hasSource := (Field.source.value? records).isSome
  hasDest := (Field.dest.value? records).isSome

theorem add_ofRecords (field : Field) (value : Bytes) :
    (ofRecords signature raw records).add field value =
      ofRecords signature raw (records ++ [field.record value]) := by
  simp only [add, ofRecords, Envelope.add_ofRecords, Field.isSome_value?_append_record]

theorem read_ofRecords_eq_ok_iff :
    (ofRecords signature raw records).read record = .ok next ↔
      (∃ field value, record = Field.record field value ∧ field.Admits value) ∧
        next = ofRecords signature raw (records ++ [record]) := by
  rw [read_eq_ok_iff]
  constructor
  · rintro ⟨field, value, rfl, hadmits, rfl⟩
    exact ⟨⟨field, value, rfl, hadmits⟩, add_ofRecords field value⟩
  · rintro ⟨⟨field, value, rfl, hadmits⟩, rfl⟩
    exact ⟨field, value, rfl, hadmits, (add_ofRecords field value).symm⟩

/-- **The fields of a message.** The records behind a signature are taken in one by one exactly if every one of
them has a value that its field admits, and then it can be told field by field what they come to. -/
theorem foldlM_read_eq_ok_iff :
    records.foldlM read (start signature raw) = .ok draft ↔
      (∀ record ∈ records, ∃ field value, record = Field.record field value ∧ field.Admits value) ∧
        draft = ofRecords signature raw records := by
  have hstart : start signature raw = ofRecords signature raw [] := rfl
  rw [hstart]
  exact foldlM_eq_ok_iff fun records record next => read_ofRecords_eq_ok_iff

end Draft

end GroupChat.Greet
