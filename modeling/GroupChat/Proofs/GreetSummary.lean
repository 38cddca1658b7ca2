import GroupChat.Proofs.GreetGrammar
import GroupChat.Proofs.SummaryFields
import GroupChat.Signature.Ed25519

/-!
# Summaries of greet messages

Reading a message and summing it up are two ways through the same records, and each gathers what it needs on its
own. Main statement: a message that is accepted has a summary exactly if it names its category, and the summary
says of it what reading says.
-/

namespace GroupChat.Greet

namespace Origin

variable {source : MemberId} {members : List MemberId}

theorem classify_of_ne_nil (hmembers : members ≠ []) :
    classify source members = if source ∈ members then .participant else .outsider :=
  if_neg fun hempty => hmembers (List.isEmpty_iff.1 hempty)

theorem classify_eq_unknown_iff : classify source members = .unknown ↔ members = [] := by
  constructor
  · intro hunknown
    by_contra hmembers
    rw [classify_of_ne_nil hmembers] at hunknown
    split at hunknown <;> cases hunknown
  · rintro rfl
    rfl

theorem classify_eq_participant_iff : classify source members = .participant ↔ source ∈ members := by
  by_cases hmembers : members = []
  · rw [hmembers]
    exact iff_of_false (by rintro ⟨⟩) List.not_mem_nil
  · rw [classify_of_ne_nil hmembers]
    exact ⟨fun horigin => by_contra fun hmem => by simp [hmem] at horigin, fun hmem => if_pos hmem⟩

theorem classify_eq_outsider_iff :
    classify source members = .outsider ↔ members ≠ [] ∧ source ∉ members := by
  by_cases hmembers : members = []
  · rw [hmembers]
    exact iff_of_false (by rintro ⟨⟩) fun houtsider => houtsider.1 rfl
  · rw [classify_of_ne_nil hmembers, and_iff_right hmembers]
    exact ⟨fun horigin hmem => by simp [hmem] at horigin, fun hmem => if_neg hmem⟩

end Origin

/-- What a summary says of a greet message. -/
structure Summary.Describes (summary : Summary) (envelope : Envelope) : Prop where
  category : summary.category = .greet
  version : summary.version = 1
  sessionHint : summary.sessionHint = none
  source : summary.source = envelope.message.source
  dest : summary.dest = envelope.message.dest
  participant : summary.origin = .participant ↔ envelope.message.source ∈ envelope.message.members
  outsider : summary.origin = .outsider ↔
    envelope.message.members ≠ [] ∧ envelope.message.source ∉ envelope.message.members
  unknown : summary.origin = .unknown ↔ envelope.message.members = []
  greet : ∃ greet, summary.greet = some greet ∧
    envelope.message.kind = some greet.kind ∧
    envelope.agreement = some greet.agreement ∧
    envelope.flow = some greet.flow ∧
    greet.members = envelope.message.members ∧
    greet.nonceCount = envelope.message.nonces.length ∧
    greet.pubKeyCount = envelope.message.pubKeys.length ∧
    greet.intKeyCount = envelope.message.intKeys.length

namespace Notes

variable {notes : Notes} {envelope : Envelope} {draft final : Draft} {field : Field} {value : Bytes}
  {records : List Record} {kind : Kind}

/-- What is noted of some records goes with what is read of a message from them. -/
structure Agrees (notes : Notes) (envelope : Envelope) : Prop where
  version : notes.version = envelope.version.getD 0
  knownVersion : ∀ version ∈ envelope.version, version = 1
  category : ∀ category ∈ notes.category, category = Category.greet.code
  kind : notes.kind = envelope.message.kind
  agreement : envelope.agreement = notes.kind.map Kind.agreement
  flow : envelope.flow = notes.kind.map Kind.flow
  source : notes.source = envelope.message.source
  dest : notes.dest = envelope.message.dest
  members : notes.members = envelope.message.members
  intKeyCount : notes.intKeyCount = envelope.message.intKeys.length
  nonceCount : notes.nonceCount = envelope.message.nonces.length
  pubKeyCount : notes.pubKeyCount = envelope.message.pubKeys.length
  sessionHint : notes.sessionHint = none

theorem agrees_start (signature raw : Bytes) : Agrees {} (Draft.start signature raw).envelope :=
  ⟨rfl, nofun, nofun, rfl, rfl, rfl, rfl, rfl, rfl, rfl, rfl, rfl, rfl⟩

/-- One more value that a message admits is taken in alike on both ways. -/
theorem Agrees.add (hagrees : Agrees notes envelope) (hadmits : field.Admits value) :
    Agrees (notes.add field value) (envelope.add field value) := by
  have hcount : ∀ {count : Nat} {values : List Bytes}, count = values.length →
      count + 1 = (values ++ [value]).length := by
    intro count values heq
    rw [heq, List.length_append, List.length_singleton]
  cases field with
  | version =>
      cases hadmits
      exact { hagrees with version := rfl, knownVersion := fun _ hsome => (Option.some.inj hsome).symm }
  | category =>
      cases hadmits
      exact { hagrees with category := fun _ hsome => (Option.some.inj hsome).symm }
  | kind => exact { hagrees with kind := rfl, agreement := rfl, flow := rfl }
  | source => exact { hagrees with source := rfl }
  | dest => exact { hagrees with dest := rfl }
  | member => exact { hagrees with members := congrArg (· ++ [value]) hagrees.members }
  | intKey => exact { hagrees with intKeyCount := hcount hagrees.intKeyCount }
  | nonce => exact { hagrees with nonceCount := hcount hagrees.nonceCount }
  | pubKey => exact { hagrees with pubKeyCount := hcount hagrees.pubKeyCount }
  | padding | sessionSignature | signingKey => exact { hagrees with }
  | signature | payload | initialVector | sessionHint => exact hadmits.elim

theorem isSome_category_add (notes : Notes) (field : Field) (value : Bytes) :
    (notes.add field value).category.isSome = true ↔ notes.category.isSome = true ∨ field = .category := by
  cases field <;> simp [add]

/-- Whatever records a message is read from, they can be noted as well, and to the same effect. Whether a category is
noted goes by whether one of them names it. -/
theorem Agrees.foldlM (hagrees : Agrees notes draft.envelope)
    (hread : records.foldlM Draft.read draft = .ok final) :
    ∃ last, records.foldlM read notes = .ok last ∧ Agrees last final.envelope ∧
      (last.category.isSome = true ↔
        notes.category.isSome = true ∨ ∃ value, Field.category.record value ∈ records) := by
  induction records generalizing notes draft with
  | nil =>
      cases hread
      exact ⟨notes, rfl, hagrees, by simp⟩
  | cons record records ih =>
      rw [List.foldlM_cons] at hread
      obtain ⟨_, hfirst, hrest⟩ := bind_eq_ok_iff.1 hread
      obtain ⟨field, value, rfl, hadmits, rfl⟩ := Draft.read_eq_ok_iff.1 hfirst
      have hnoted : notes.read (field.record value) = .ok (notes.add field value) :=
        read_record_eq_ok_iff.2 ⟨hadmits.length_eq, rfl⟩
      obtain ⟨last, hlast, hfinal, hcategory⟩ := ih (hagrees.add hadmits) hrest
      refine ⟨last, ?_, hfinal, ?_⟩
      · rw [List.foldlM_cons, hnoted]
        exact hlast
      · rw [hcategory, isSome_category_add, or_assoc, Field.exists_record_mem_cons_iff]

theorem Agrees.describes (hagrees : Agrees notes envelope) (hversion : envelope.version.isSome = true)
    (hkind : notes.kind = some kind) :
    (notes.summary .greet (some (notes.greetSummary kind))).Describes envelope where
  category := rfl
  version := by
    obtain ⟨version, hsome⟩ := Option.isSome_iff_exists.1 hversion
    have hread := hagrees.version
    rw [hsome, Option.getD_some, hagrees.knownVersion version hsome] at hread
    exact hread
  sessionHint := hagrees.sessionHint
  source := hagrees.source
  dest := hagrees.dest
  participant := by
    rw [← hagrees.source, ← hagrees.members]
    exact Origin.classify_eq_participant_iff
  outsider := by
    rw [← hagrees.source, ← hagrees.members]
    exact Origin.classify_eq_outsider_iff
  unknown := by
    rw [← hagrees.members]
    exact Origin.classify_eq_unknown_iff
  greet := by
    refine ⟨notes.greetSummary kind, rfl, hagrees.kind.symm.trans hkind, ?_, ?_, hagrees.members,
      hagrees.nonceCount, hagrees.pubKeyCount, hagrees.intKeyCount⟩
    · rw [hagrees.agreement, hkind]
      rfl
    · rw [hagrees.flow, hkind]
      rfl

theorem conclude_of_category_eq_none (hcategory : notes.category = none) :
    notes.conclude = .error .unknownContent := by
  rw [conclude, hcategory]
  rfl

theorem conclude_of_greet (hcategory : notes.category = some Category.greet.code)
    (hkind : notes.kind = some kind) :
    notes.conclude = .ok (notes.summary .greet (some (notes.greetSummary kind))) := by
  rw [conclude, if_pos hcategory, hkind]

end Notes

/-- The notes that a summary is made from, where a message was read from the same data. -/
theorem Summary.exists_notes_of_decode_eq_ok {scheme : SignatureScheme} {given : Option Bytes} {data : Bytes}
    {envelope : Envelope} {lines : List Log.Line}
    (hdecode : Envelope.decode scheme given data = .ok (envelope, lines)) :
    ∃ (records : List Record) (notes : Notes), Reader.readAll data = .ok records ∧
      ofContent data = notes.conclude.mapError .format ∧ notes.Agrees envelope ∧
      envelope.version.isSome = true ∧ envelope.message.kind.isSome = true ∧
      (notes.category.isSome = true ↔ ∃ value, Field.category.record value ∈ records) := by
  obtain ⟨_, hparse, rfl⟩ := Envelope.exists_parse_of_decode_eq_ok hdecode
  obtain ⟨signature, content, records, draft, hfits, hlayout, hstream, hread, hcomplete, rfl⟩ :=
    Envelope.parse_eq_ok_iff_foldlM.1 hparse
  obtain ⟨last, hnotes, hagrees, hcategory⟩ := (Notes.agrees_start signature content).foldlM hread
  obtain ⟨hversion, hkind, -, -⟩ := Draft.checkComplete_eq_ok_iff.1 hcomplete
  have hrecords := Reader.readAll_eq_ok_iff.2
    (Record.stream_cons_iff.2 ⟨hfits, content, hlayout, hstream⟩)
  refine ⟨_, last, hrecords, ?_, { hagrees with }, hversion, hkind, ?_⟩
  · -- The signature is the one record that only the summary goes through, and nothing is noted of it.
    rw [ofContent, hrecords]
    change (records.foldlM Notes.read {} >>= fun notes => notes.conclude.mapError .format) = _
    rw [hnotes]
    rfl
  · rw [hcategory, Field.exists_record_mem_cons_iff]
    simp

/-- **Reading and summing up agree.** A message that is accepted can always be read as records. If none of
them names its category, it has no summary. Otherwise it has one, which describes the message that was
read. -/
theorem summary_agrees_with_decoding {scheme : SignatureScheme} {given : Option Bytes} {data : Bytes}
    {envelope : Envelope} {lines : List Log.Line}
    (hdecode : Envelope.decode scheme given data = .ok (envelope, lines)) :
    ∃ records, Reader.readAll data = .ok records ∧
      ((¬∃ value, Field.category.record value ∈ records) →
        Summary.ofContent data = .error (.format .unknownContent)) ∧
      ((∃ value, Field.category.record value ∈ records) →
        ∃ summary, Summary.ofContent data = .ok summary ∧ summary.Describes envelope) := by
  obtain ⟨records, notes, hrecords, hcontent, hagrees, hversion, hkind, hcategory⟩ :=
    Summary.exists_notes_of_decode_eq_ok hdecode
  refine ⟨records, hrecords, ?_, ?_⟩
  · rw [← hcategory, Option.not_isSome_iff_eq_none]
    intro hnone
    rw [hcontent, Notes.conclude_of_category_eq_none hnone]
    rfl
  · rw [← hcategory, Option.isSome_iff_exists]
    rintro ⟨category, hsome⟩
    obtain ⟨kind, hkind⟩ := Option.isSome_iff_exists.1 hkind
    have hkind : notes.kind = some kind := hagrees.kind.trans hkind
    rw [hagrees.category category hsome] at hsome
    rw [hcontent, Notes.conclude_of_greet hsome hkind]
    exact ⟨_, rfl, hagrees.describes hversion hkind⟩

/-- Of a source and a kind that come twice, both ways take the second one. -/
theorem repeated_fields_are_summarised :
    let records : List Record :=
      [Field.version.record [1], Field.source.record [98], Field.kind.record [0, 0x1c],
        Field.category.record [2], Field.dest.record [], Field.member.record [97],
        Field.source.record [97], Field.kind.record [0, 0xd3]]
    let data := (Field.signature.record []).layout ++ records.flatMap Record.layout
    ∃ envelope lines, Envelope.decode Ed25519.scheme none data = .ok (envelope, lines) ∧
      envelope.message.source = [97] ∧
      ∃ summary, Summary.ofContent data = .ok summary ∧ summary.Describes envelope := by
  intro records data
  have hfits : (Field.signature.record []).Fits := by decide
  have hstream : Record.Stream records (records.flatMap Record.layout) := ⟨by decide, rfl⟩
  have hgrammar : Grammar records := (grammar_iff_foldlM_read [] []).2 ⟨_, rfl, by decide⟩
  obtain ⟨lines, hdecode⟩ := Envelope.decode_of_stream Ed25519.scheme none hfits hstream hgrammar
  obtain ⟨read, hread, -, hsummary⟩ := summary_agrees_with_decoding hdecode
  have hrecords := Reader.readAll_eq_ok_iff.2 (Record.stream_cons_iff.2 ⟨hfits, _, rfl, hstream⟩)
  cases hread.symm.trans hrecords
  exact ⟨_, lines, hdecode, rfl, hsummary ⟨[2], by decide⟩⟩

end GroupChat.Greet
