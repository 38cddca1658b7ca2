import GroupChat.Proofs.GreetGrammar
import GroupChat.Proofs.SummaryFields
import GroupChat.Signature.Ed25519

/-!
# How records of different fields are mixed

What a message says is gathered field by field, so that the order counts among the records of one field
only. Main statement: messages whose records agree for every field but padding are both refused or read as
the same, and so are their summaries, for which the records of fewer fields have to agree.
-/

namespace GroupChat

namespace Record

variable {counts : UInt16 → Prop} {record : Record} {first second : List Record} {data : Bytes}

/-- For each of these tags, both hold the same records with this tag in the same order. -/
def AgreeOn (counts : UInt16 → Prop) (first second : List Record) : Prop :=
  ∀ tag, counts tag → first.filter (·.tag == tag) = second.filter (·.tag == tag)

theorem AgreeOn.symm (hagree : AgreeOn counts first second) : AgreeOn counts second first :=
  fun tag htag => (hagree tag htag).symm

theorem AgreeOn.mem_iff (hagree : AgreeOn counts first second) (hcounts : counts record.tag) :
    record ∈ first ↔ record ∈ second := by
  have hmem : ∀ records : List Record,
      record ∈ records ↔ record ∈ records.filter (·.tag == record.tag) := by
    intro records
    rw [List.mem_filter, and_iff_left BEq.rfl]
  rw [hmem first, hagree record.tag hcounts, ← hmem second]

/-- Tags that none of the records has need not be looked at. -/
theorem agreeOn_iff :
    AgreeOn counts first second ↔
      ∀ record ∈ first ++ second, counts record.tag →
        first.filter (·.tag == record.tag) = second.filter (·.tag == record.tag) := by
  constructor
  · exact fun hagree record _ => hagree record.tag
  · intro hagree tag hcounts
    by_cases htag : ∃ record ∈ first ++ second, record.tag = tag
    · obtain ⟨record, hmem, rfl⟩ := htag
      exact hagree record hmem hcounts
    · have hnone : ∀ records : List Record, records ⊆ first ++ second →
          records.filter (·.tag == tag) = [] := by
        intro records hsubset
        rw [List.filter_eq_nil_iff]
        exact fun record hmem heq => htag ⟨record, hsubset hmem, beq_iff_eq.1 heq⟩
      rw [hnone first (List.subset_append_left ..), hnone second (List.subset_append_right ..)]

theorem Stream.unique (hfirst : Stream first data) (hsecond : Stream second data) : first = second := by
  have hread := Reader.readAll_eq_ok_iff.2 hfirst
  rw [Reader.readAll_eq_ok_iff.2 hsecond] at hread
  exact (Except.ok.inj hread).symm

end Record

namespace Greet

open Record (AgreeOn)

variable {counts : UInt16 → Prop} {field : Field} {first second records : List Record}

theorem Field.values_eq_of_agreeOn (hagree : AgreeOn counts first second) (field : Field)
    (hcounts : counts field.tag) : field.values first = field.values second :=
  congrArg (List.map Record.value) (hagree field.tag hcounts)

section Messages

/-- All tags but that of padding. -/
def IsSaid (tag : UInt16) : Prop := tag ≠ Field.padding.tag

theorem Field.isSaid_iff : IsSaid field.tag ↔ field ≠ .padding := tag_injective.ne_iff

theorem Field.values_eq_of_isSaid (hagree : AgreeOn IsSaid first second) (field : Field)
    (hfield : field ≠ .padding) : field.values first = field.values second :=
  values_eq_of_agreeOn hagree field (isSaid_iff.2 hfield)

theorem Message.ofRecords_eq_of_agreeOn (hagree : AgreeOn IsSaid first second) :
    ofRecords first = ofRecords second := by
  have hvalues := Field.values_eq_of_isSaid hagree
  simp only [ofRecords, Field.value?, ne_eq, reduceCtorEq, not_false_eq_true, hvalues]

/-- What is read depends on the values of each field, and on nothing else but the content itself. -/
theorem Envelope.ofRecords_eq_of_agreeOn (hagree : AgreeOn IsSaid first second)
    (signature raw raw' : Bytes) :
    ofRecords signature raw' second = { ofRecords signature raw first with raw := raw' } := by
  have hmessage := Message.ofRecords_eq_of_agreeOn hagree
  have hvalues := Field.values_eq_of_isSaid hagree
  simp only [ofRecords, hmessage, Field.value?, ne_eq, reduceCtorEq, not_false_eq_true, hvalues]

theorem Grammar.of_agreeOn (hgrammar : Grammar first) (hagree : AgreeOn IsSaid first second) :
    Grammar second := by
  have hvalues := Field.values_eq_of_isSaid hagree
  have hnamed : ∀ field : Field, field ≠ .padding → (∃ value, field.record value ∈ first) →
      ∃ value, field.record value ∈ second := by
    rintro field hfield ⟨value, hmem⟩
    exact ⟨value, (hagree.mem_iff (Field.isSaid_iff.2 hfield)).1 hmem⟩
  have hkeys := hgrammar.intKeys
  have hnonces := hgrammar.nonces
  have hpubKeys := hgrammar.pubKeys
  simp only [ne_eq, reduceCtorEq, not_false_eq_true, hvalues] at hkeys hnonces hpubKeys
  refine ⟨fun record hmem => ?_, hnamed _ nofun hgrammar.version, hnamed _ nofun hgrammar.kind,
    hnamed _ nofun hgrammar.source, hnamed _ nofun hgrammar.dest, hkeys, hnonces, hpubKeys⟩
  -- Padding may stand anywhere; every other record of the second list is one of the first.
  by_cases hpadding : record.tag = Field.padding.tag
  · exact ⟨.padding, record.value, Field.eq_record_of_tag hpadding, trivial⟩
  · exact hgrammar.admitted record ((hagree.mem_iff hpadding).2 hmem)

theorem Envelope.grammar_of_decode_eq_ok {scheme : SignatureScheme} {given : Option Bytes}
    {signature data : Bytes} {result : Envelope × List Log.Line}
    (hstream : Record.Stream (Field.signature.record signature :: records) data)
    (hdecode : decode scheme given data = .ok result) : Grammar records := by
  obtain ⟨signature', content, read, hfits, hlayout, hread, hgrammar, -⟩ :=
    stream_of_decode_eq_ok hdecode
  have hsame := hstream.unique (Record.stream_cons_iff.2 ⟨hfits, content, hlayout, hread⟩)
  rwa [(List.cons.inj hsame).2]

end Messages

section Summaries

/-- The fields that a summary is made from. -/
def Summary.fields : List Field :=
  [.version, .category, .kind, .source, .dest, .member, .intKey, .nonce, .pubKey, .sessionHint]

/-- The tags that a summary looks at. -/
def IsSummarised (tag : UInt16) : Prop := ∃ field ∈ Summary.fields, field.tag = tag

theorem Field.isSummarised_tag (hfield : field ∈ Summary.fields) : IsSummarised field.tag :=
  ⟨field, hfield, rfl⟩

theorem Notes.ofRecords_eq_of_agreeOn (hagree : AgreeOn IsSummarised first second) :
    ofRecords first = ofRecords second := by
  have hvalues : ∀ field ∈ Summary.fields, field.values first = field.values second :=
    fun field hfield => Field.values_eq_of_agreeOn hagree field (Field.isSummarised_tag hfield)
  simp only [Summary.fields, List.forall_mem_cons] at hvalues
  obtain ⟨hversion, hcategory, hkind, hsource, hdest, hmember, hintKey, hnonce, hpubKey, hhint, -⟩ :=
    hvalues
  simp only [ofRecords, Field.value?, hversion, hcategory, hkind, hsource, hdest, hmember, hintKey,
    hnonce, hpubKey, hhint]

/-- Records that a summary does not look at have any width. -/
theorem measured_of_not_isSummarised {record : Record} (hnot : ¬IsSummarised record.tag) :
    Measured record := by
  intro field htag width hwidth
  have hfield : field ∈ Summary.fields := by
    cases field with
    | version | category | kind => decide
    | _ => cases hwidth
  exact absurd ⟨field, hfield, htag.symm⟩ hnot

theorem forall_measured_of_agreeOn (hagree : AgreeOn IsSummarised first second)
    (hmeasured : ∀ record ∈ first, Measured record) : ∀ record ∈ second, Measured record := by
  intro record hmem
  by_cases hlooked : IsSummarised record.tag
  · exact hmeasured record ((hagree.mem_iff hlooked).2 hmem)
  · exact measured_of_not_isSummarised hlooked

theorem Summary.ofContent_eq_ok_of_agreeOn {data data' : Bytes} {summary : Summary}
    (hfirst : Record.Stream first data) (hsecond : Record.Stream second data')
    (hagree : AgreeOn IsSummarised first second) (hsummary : ofContent data = .ok summary) :
    ofContent data' = .ok summary := by
  obtain ⟨records, hstream, hrecords⟩ := ofContent_eq_ok_iff.1 hsummary
  obtain rfl := hfirst.unique hstream
  obtain ⟨hmeasured, hconclude⟩ := ofRecords_eq_ok_iff.1 hrecords
  rw [Notes.ofRecords_eq_of_agreeOn hagree] at hconclude
  exact ofContent_eq_ok_iff.2 ⟨second, hsecond,
    ofRecords_eq_ok_iff.2 ⟨forall_measured_of_agreeOn hagree hmeasured, hconclude⟩⟩

end Summaries

/-- **How records are mixed does not matter.** Behind the same signature, records that agree for every tag
but that of padding are both refused, or both accepted as messages that differ in nothing but the raw content
and the verdict about the signature. Records that agree for the tags that a summary looks at have the same
summary or none. -/
theorem mixing_does_not_matter :
    (∀ (scheme : SignatureScheme) (given given' : Option Bytes) (signature data data' : Bytes)
        (first second : List Record),
      Record.Stream (Field.signature.record signature :: first) data →
      Record.Stream (Field.signature.record signature :: second) data' →
      AgreeOn (· ≠ Field.padding.tag) first second →
      (∃ error error', Envelope.decode scheme given data = .error error ∧
        Envelope.decode scheme given' data' = .error error') ∨
      ∃ envelope lines lines' verified raw,
        Envelope.decode scheme given data = .ok (envelope, lines) ∧
        Envelope.decode scheme given' data' = .ok ({ envelope with verified, raw }, lines')) ∧
    ∀ (data data' : Bytes) (first second : List Record),
      Record.Stream first data → Record.Stream second data' →
      AgreeOn (fun tag => ∃ field ∈ Summary.fields, field.tag = tag) first second →
      (∃ error error', Summary.ofContent data = .error error ∧
        Summary.ofContent data' = .error error') ∨
      ∃ summary, Summary.ofContent data = .ok summary ∧ Summary.ofContent data' = .ok summary := by
  constructor
  · intro scheme given given' signature data data' first second hdata hdata' hagree
    by_cases hgrammar : Grammar first
    · obtain ⟨hfits, content, rfl, hfirst⟩ := Record.stream_cons_iff.1 hdata
      obtain ⟨-, content', rfl, hsecond⟩ := Record.stream_cons_iff.1 hdata'
      obtain ⟨lines, hdecode⟩ := Envelope.decode_of_stream scheme given hfits hfirst hgrammar
      obtain ⟨lines', hdecode'⟩ :=
        Envelope.decode_of_stream scheme given' hfits hsecond (hgrammar.of_agreeOn hagree)
      refine Or.inr ⟨_, lines, lines',
        ((Envelope.ofRecords signature content' second).judged scheme given').verified, content',
        hdecode, hdecode'.trans ?_⟩
      rw [Envelope.ofRecords_eq_of_agreeOn hagree signature content content']
      rfl
    · have hrefused : ∀ {given data records}, ¬Grammar records →
          Record.Stream (Field.signature.record signature :: records) data →
          ∃ error, Envelope.decode scheme given data = .error error := by
        intro given data records hnot hstream
        cases hdecode : Envelope.decode scheme given data with
        | error error => exact ⟨error, rfl⟩
        | ok result => exact absurd (Envelope.grammar_of_decode_eq_ok hstream hdecode) hnot
      obtain ⟨error, herror⟩ := hrefused hgrammar hdata
      obtain ⟨error', herror'⟩ :=
        hrefused (fun hsecond => hgrammar (hsecond.of_agreeOn hagree.symm)) hdata'
      exact Or.inl ⟨error, error', herror, herror'⟩
  · intro data data' first second hfirst hsecond hagree
    cases hsummary : Summary.ofContent data with
    | ok summary =>
        exact Or.inr ⟨summary, rfl,
          Summary.ofContent_eq_ok_of_agreeOn hfirst hsecond hagree hsummary⟩
    | error error =>
        cases hsummary' : Summary.ofContent data' with
        | error error' => exact Or.inl ⟨error, error', rfl, rfl⟩
        | ok summary =>
            rw [Summary.ofContent_eq_ok_of_agreeOn hsecond hfirst hagree.symm hsummary'] at hsummary
            cases hsummary

/-- A nonce may come before its member and padding may stand anywhere. A payload does not count in a summary,
wherever it is. -/
theorem mixed_records_read_alike :
    let first : List Record :=
      [Field.version.record [1], Field.category.record [2], Field.kind.record [0, 1],
        Field.source.record [97], Field.dest.record [], Field.member.record [97], Field.nonce.record [7]]
    let second : List Record :=
      [Field.padding.record [0, 0], Field.nonce.record [7], Field.dest.record [], Field.source.record [97],
        Field.member.record [97], Field.kind.record [0, 1], Field.padding.record [],
        Field.category.record [2], Field.version.record [1]]
    let data (records : List Record) : Bytes :=
      (Field.signature.record [5] :: records).flatMap Record.layout
    (∃ envelope lines lines' verified raw,
      Envelope.decode Ed25519.scheme none (data first) = .ok (envelope, lines) ∧
      Envelope.decode Ed25519.scheme none (data second) =
        .ok ({ envelope with verified, raw }, lines')) ∧
    ∃ summary, Summary.ofContent (data first) = .ok summary ∧
      Summary.ofContent (data (second ++ [Field.payload.record [3]])) = .ok summary := by
  intro first second data
  have hstream : Record.Stream (Field.signature.record [5] :: first) (data first) := ⟨by decide, rfl⟩
  have hstream' : Record.Stream (Field.signature.record [5] :: second) (data second) :=
    ⟨by decide, rfl⟩
  have hextra : Record.Stream (Field.signature.record [5] :: (second ++ [Field.payload.record [3]]))
      (data (second ++ [Field.payload.record [3]])) := ⟨by decide, rfl⟩
  have hgrammar : Grammar first := (grammar_iff_foldlM_read [] []).2 ⟨_, rfl, by decide⟩
  constructor
  · obtain ⟨error, -, herror, -⟩ | haccepted := mixing_does_not_matter.1 Ed25519.scheme none none [5] _ _
      first second hstream hstream' (Record.agreeOn_iff.2 (by decide))
    · obtain ⟨result, lines, hresult⟩ := (Envelope.decode_accepts_grammar Ed25519.scheme none
        (data first)).1.2 ⟨[5], first, hstream, hgrammar⟩
      rw [hresult] at herror
      cases herror
    · exact haccepted
  · obtain ⟨error, -, herror, -⟩ | haccepted := mixing_does_not_matter.2 _ _ _ _ hstream hextra
      (Record.agreeOn_iff.2 (by decide))
    · rw [Summary.ofContent_eq_ok_iff.2 ⟨_, hstream, rfl⟩] at herror
      cases herror
    · exact haccepted

end Greet

end GroupChat
