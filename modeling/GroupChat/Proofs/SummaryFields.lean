import GroupChat.Greet.Summary
import GroupChat.Proofs.GreetFields

/-!
# What is noted of the records of a message

Summing up a message goes through all of its records and notes some of what they say. Main statement: the notes
can be told field by field, and they can be taken exactly if the records of the fields of a fixed width have that
width, whatever else there is among the records.
-/

namespace GroupChat.Greet

/-- The width that a summary expects of the values of a field. -/
def Field.width? : Field → Option Nat
  | .version | .category => some 1
  | .kind => some 2
  | _ => none

/-- A record whose value is as wide as a summary expects. -/
def Measured (record : Record) : Prop :=
  ∀ field : Field, record.tag = field.tag → ∀ width ∈ field.width?, record.value.length = width

variable {field : Field} {value : Bytes} {record : Record} {records : List Record}

theorem measured_record_iff :
    Measured (field.record value) ↔ ∀ width ∈ field.width?, value.length = width := by
  constructor
  · exact fun hmeasured => hmeasured field rfl
  · intro hwidth other htag
    cases Field.tag_injective htag
    exact hwidth

/-- What a greet message admits is as wide as its summary expects. -/
theorem Field.Admits.length_eq (hadmits : field.Admits value) :
    ∀ width ∈ field.width?, value.length = width := by
  rintro width hwidth
  cases field with
  | version | category =>
      cases hadmits
      exact Option.some.inj hwidth
  | kind => exact hadmits.trans (Option.some.inj hwidth)
  | _ => cases hwidth

namespace Notes

variable {notes next : Notes}

/-- The notes with one more value of a field. -/
def add (notes : Notes) : Field → Bytes → Notes
  | .version, value => { notes with version := Integer.ofBigEndian value }
  | .category, value => { notes with category := some (Integer.ofBigEndian value) }
  | .kind, value => { notes with kind := some (.ofValue value) }
  | .source, value => { notes with source := value }
  | .dest, value => { notes with dest := value }
  | .member, value => { notes with members := notes.members ++ [value] }
  | .intKey, _ => { notes with intKeyCount := notes.intKeyCount + 1 }
  | .nonce, _ => { notes with nonceCount := notes.nonceCount + 1 }
  | .pubKey, _ => { notes with pubKeyCount := notes.pubKeyCount + 1 }
  | .sessionHint, value => { notes with sessionHint := some value }
  | .padding, _ | .signature, _ | .payload, _ | .initialVector, _ | .sessionSignature, _
  | .signingKey, _ => notes

theorem read_record_eq_ok_iff :
    notes.read (field.record value) = .ok next ↔
      (∀ width ∈ field.width?, value.length = width) ∧ next = notes.add field value := by
  cases field with
  | version | category | kind =>
      simp only [Field.width?, Option.mem_def, Option.some.injEq, forall_eq']
      exact expect_width_eq_ok_iff (by decide)
  | _ =>
      constructor
      · exact fun hok => ⟨nofun, (Except.ok.inj hok).symm⟩
      · exact fun hadd => congrArg _ hadd.2.symm

/-- What is noted of some records, field by field. -/
def ofRecords (records : List Record) : Notes where
  version := ((Field.version.value? records).map Integer.ofBigEndian).getD 0
  category := (Field.category.value? records).map Integer.ofBigEndian
  kind := (Field.kind.value? records).map Kind.ofValue
  source := (Field.source.value? records).getD []
  dest := (Field.dest.value? records).getD []
  members := Field.member.values records
  nonceCount := (Field.nonce.values records).length
  pubKeyCount := (Field.pubKey.values records).length
  intKeyCount := (Field.intKey.values records).length
  sessionHint := Field.sessionHint.value? records

theorem add_ofRecords (field : Field) (value : Bytes) :
    (ofRecords records).add field value = ofRecords (records ++ [field.record value]) := by
  cases field <;>
    simp [add, ofRecords, Field.values_append_record, Field.value?_append_record]

/-- Records without a field are not noted. -/
theorem ofRecords_append_of_ofTag?_eq_none (hnone : Field.ofTag? record.tag = none) :
    ofRecords (records ++ [record]) = ofRecords records := by
  have hvalues : ∀ field : Field, field.values (records ++ [record]) = field.values records := by
    intro field
    have htag : ¬(record.tag == field.tag) = true := by
      intro heq
      rw [beq_iff_eq.1 heq, Field.ofTag?_tag] at hnone
      cases hnone
    have hnil : [record].filter (·.tag == field.tag) = [] :=
      List.filter_eq_nil_iff.2 (List.forall_mem_singleton.2 htag)
    rw [Field.values, List.filter_append, hnil, List.append_nil, Field.values]
  simp only [ofRecords, Field.value?, hvalues]

theorem read_ofRecords_eq_ok_iff :
    (ofRecords records).read record = .ok next ↔
      Measured record ∧ next = ofRecords (records ++ [record]) := by
  cases hfield : Field.ofTag? record.tag with
  | none =>
      have hmeasured : Measured record := by
        intro field htag
        rw [htag, Field.ofTag?_tag] at hfield
        cases hfield
      rw [ofRecords_append_of_ofTag?_eq_none hfield, and_iff_right hmeasured]
      simp only [read, hfield, Except.ok.injEq]
      exact eq_comm
  | some field =>
      rw [Field.eq_record_of_tag (Field.tag_of_ofTag? hfield).symm, read_record_eq_ok_iff,
        measured_record_iff, add_ofRecords]

/-- **The fields of a summary.** The records of a message can be noted exactly if those of a fixed width have that
width, and then it can be told field by field what the notes are. -/
theorem foldlM_read_eq_ok_iff :
    records.foldlM read {} = .ok notes ↔
      (∀ record ∈ records, Measured record) ∧ notes = ofRecords records := by
  have hstart : ({} : Notes) = ofRecords [] := rfl
  rw [hstart]
  exact foldlM_eq_ok_iff fun records record next => read_ofRecords_eq_ok_iff

end Notes

namespace Summary

variable {content : Bytes} {summary : Summary}

theorem ofRecords_eq_ok_iff :
    ofRecords records = .ok summary ↔
      (∀ record ∈ records, Measured record) ∧ (Notes.ofRecords records).conclude = .ok summary := by
  simp only [ofRecords, bind_eq_ok_iff, Notes.foldlM_read_eq_ok_iff, mapError_eq_ok_iff]
  constructor
  · rintro ⟨_, ⟨hmeasured, rfl⟩, hsummary⟩
    exact ⟨hmeasured, hsummary⟩
  · exact fun hrecords => ⟨_, ⟨hrecords.1, rfl⟩, hrecords.2⟩

theorem ofContent_eq_ok_iff :
    ofContent content = .ok summary ↔
      ∃ records, Record.Stream records content ∧ ofRecords records = .ok summary := by
  simp only [ofContent, bind_eq_ok_iff, mapError_eq_ok_iff, Reader.readAll_eq_ok_iff]

end Summary

end GroupChat.Greet
