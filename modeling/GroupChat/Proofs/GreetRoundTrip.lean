import GroupChat.Proofs.GreetGrammar

/-!
# Greet messages arrive as they were sent

What is written for a message reads as that message again. Main statement: a message is written unless it
has no kind, lists too many keys, or holds a value that does not go into a record, and whoever reads it
has the same message, and finds its signature good with the key that it was signed with.
-/

namespace GroupChat.Greet

namespace Field

theorem values_records (field other : Field) (values : List Bytes) :
    field.values (other.records values) = if other = field then values else [] := by
  induction values with
  | nil => exact (ite_self []).symm
  | cons value rest ih =>
      rw [records, List.map_cons, values_record_cons, ← records, ih]
      split <;> rfl

end Field

theorem Kind.ofValue_bigEndian (kind : Kind) :
    Kind.ofValue (Integer.bigEndian 2 kind.bits.toNat) = kind := by
  have hbits : kind.bits.toNat < Integer.capacity 2 := kind.bits.toNat_lt
  rw [ofValue, Integer.ofBigEndian_bigEndian hbits, ofNat, UInt16.ofNat_toNat]

namespace Message

variable {message : Message} {kind : Kind} {field : Field} {value : Bytes} {record : Record}

/-- What a message puts into the records of a field. -/
def contents (message : Message) (kind : Kind) : Field → List Bytes
  | .version => [Integer.bigEndian 1 protocolVersion]
  | .category => [Integer.bigEndian 1 Category.greet.code]
  | .kind => [Integer.bigEndian 2 kind.bits.toNat]
  | .source => [message.source]
  | .dest => [message.dest]
  | .member => message.members
  | .intKey => message.intKeys
  | .nonce => message.nonces
  | .pubKey => message.pubKeys
  | .sessionSignature => message.sessionSignature.toList
  | .signingKey => message.signingKey.toList
  | .padding | .signature | .payload | .initialVector | .sessionHint => []

/-- All that a message holds whose length is not fixed. -/
def values (message : Message) : List Bytes :=
  [message.source, message.dest] ++ message.members ++ message.intKeys ++ message.nonces ++
    message.pubKeys ++ message.sessionSignature.toList ++ message.signingKey.toList

/-- The fields of a message, in the order in which they are written. -/
def writtenFields : List Field :=
  [.version, .category, .kind, .source, .dest, .member, .intKey, .nonce, .pubKey, .sessionSignature,
    .signingKey]

theorem records_eq (message : Message) (kind : Kind) :
    message.records kind =
      writtenFields.flatMap fun field => field.records (message.contents kind field) := by
  simp [records, writtenFields, contents, Field.records]

theorem values_records (message : Message) (kind : Kind) (field : Field) :
    field.values (message.records kind) = message.contents kind field := by
  cases field <;>
    simp [records, contents, Field.values_append, Field.values_record_cons, Field.values_records]

theorem mem_records_iff :
    record ∈ message.records kind ↔
      ∃ field, ∃ value ∈ message.contents kind field, record = Field.record field value := by
  constructor
  · rw [records_eq]
    intro hmem
    obtain ⟨field, -, hfield⟩ := List.mem_flatMap.1 hmem
    obtain ⟨value, hvalue, rfl⟩ := List.mem_map.1 hfield
    exact ⟨field, value, hvalue, rfl⟩
  · rintro ⟨field, value, hvalue, rfl⟩
    rwa [← Field.mem_values_iff, values_records]

theorem getLast?_toList {α : Type} (value? : Option α) : value?.toList.getLast? = value? := by
  cases value? with
  | none => rfl
  | some value => rfl

/-- Reading the records that a message is written as gives the message back. -/
theorem ofRecords_records (hkind : message.kind = some kind) :
    ofRecords (message.records kind) = message := by
  simp only [ofRecords, Field.value?, values_records, contents, List.getLast?_singleton, Option.getD_some,
    Option.map_some, Kind.ofValue_bigEndian, ← hkind, getLast?_toList]

theorem admits_of_mem_contents (hvalue : value ∈ message.contents kind field) : field.Admits value := by
  cases field with
  | version | category => exact List.mem_singleton.1 hvalue
  | kind =>
      rw [List.mem_singleton.1 hvalue]
      exact Integer.length_bigEndian 2 _
  | padding | signature | payload | initialVector | sessionHint =>
      exact absurd hvalue List.not_mem_nil
  | _ => trivial

theorem grammar_records (hkind : message.kind = some kind) (hkeys : message.KeysFitMembers) :
    Grammar (message.records kind) := by
  have hsingle : ∀ {field value}, message.contents kind field = [value] →
      ∃ value, field.record value ∈ message.records kind := by
    intro field value hcontents
    exact ⟨value, mem_records_iff.2 ⟨field, value, hcontents ▸ List.mem_singleton_self value, rfl⟩⟩
  have hfit : (ofRecords (message.records kind)).KeysFitMembers := by rwa [ofRecords_records hkind]
  refine ⟨fun record hmem => ?_, hsingle rfl, hsingle rfl, hsingle rfl, hsingle rfl, hfit.1, hfit.2.1,
    hfit.2.2⟩
  obtain ⟨field, value, hvalue, rfl⟩ := mem_records_iff.1 hmem
  exact ⟨field, value, rfl, admits_of_mem_contents hvalue⟩

/-- What is read besides from these records goes by the message as well. -/
theorem envelope_ofRecords_records {signature raw : Bytes} (hkind : message.kind = some kind)
    (hkeys : message.KeysFitMembers) :
    Envelope.ofRecords signature raw (message.records kind) =
      { message
        agreement := some kind.agreement
        flow := some kind.flow
        printedKeys := message.intKeys.map Base64.encode
        version := some protocolVersion
        signature
        raw } := by
  have hmessage := ofRecords_records hkind
  rw [(grammar_records hkind hkeys).ofRecords_eq (hmessage ▸ hkind), hmessage]

/-- The fields whose values are as long as the message has them. -/
def freeFields : List Field :=
  [.source, .dest, .member, .intKey, .nonce, .pubKey, .sessionSignature, .signingKey]

theorem values_eq (message : Message) (kind : Kind) :
    message.values = freeFields.flatMap (message.contents kind) := by
  simp [values, freeFields, contents]

/-- What is written goes into records if and only if what the message holds does. -/
theorem fits_records_iff :
    (∀ record ∈ message.records kind, record.Fits) ↔
      ∀ value ∈ message.values, value.length ≤ Record.maxValueSize := by
  rw [values_eq message kind]
  constructor
  · intro hfits value hmem
    obtain ⟨field, -, hvalue⟩ := List.mem_flatMap.1 hmem
    exact hfits (field.record value) (mem_records_iff.2 ⟨field, value, hvalue, rfl⟩)
  · intro hvalues record hmem
    obtain ⟨field, value, hvalue, rfl⟩ := mem_records_iff.1 hmem
    have hfree : field ∈ freeFields → value.length ≤ Record.maxValueSize := fun hfield =>
      hvalues value (List.mem_flatMap.2 ⟨field, hfield, hvalue⟩)
    cases field with
    | version | category | kind =>
        rw [Record.Fits, Field.record, List.mem_singleton.1 hvalue, Integer.length_bigEndian]
        decide
    | padding | signature | payload | initialVector | sessionHint =>
        exact absurd hvalue List.not_mem_nil
    | _ => exact hfree (by decide)

theorem encodeContent_of_kind (hkind : message.kind = some kind) (hkeys : message.KeysFitMembers) :
    message.encodeContent = (Record.encodeAll (message.records kind)).mapError .write := by
  rw [encodeContent, hkind]
  exact if_pos hkeys

theorem encodeContent_eq_ok (hkind : message.kind = some kind) (hkeys : message.KeysFitMembers)
    (hvalues : ∀ value ∈ message.values, value.length ≤ Record.maxValueSize) :
    ∃ content, Record.Stream (message.records kind) content ∧
      message.encodeContent = .ok content := by
  have hstream : Record.Stream (message.records kind)
      ((message.records kind).flatMap Record.layout) := ⟨fits_records_iff.2 hvalues, rfl⟩
  refine ⟨_, hstream, ?_⟩
  rw [encodeContent_of_kind hkind hkeys, Record.encodeAll_eq_ok_iff.2 hstream]
  rfl

theorem encodeContent_of_too_long (hkind : message.kind = some kind) (hkeys : message.KeysFitMembers)
    (hlong : ∃ value ∈ message.values, Record.maxValueSize < value.length) :
    message.encodeContent = .error (.write .valueTooLong) := by
  have hrecord : ∃ record ∈ message.records kind, ¬record.Fits := by
    by_contra hfits
    push Not at hfits
    obtain ⟨value, hmem, hvalue⟩ := hlong
    exact absurd (fits_records_iff.1 hfits value hmem) (Nat.not_le.2 hvalue)
  rw [encodeContent_of_kind hkind hkeys, Record.encodeAll_of_not_fits hrecord]
  rfl

theorem encode_of_encodeContent_eq_error {scheme : SignatureScheme} {key : SigningKey}
    {error : EncodeError} (herror : message.encodeContent = .error error) :
    message.encode scheme key = .error error := by
  rw [encode, herror]
  rfl

theorem fits_signature (scheme : SignatureScheme) (seed content : Bytes) :
    (Field.signature.record (scheme.sign seed content)).Fits := by
  rw [Record.Fits, Field.record, scheme.length_sign]
  decide

theorem encode_of_encodeContent_eq_ok (scheme : SignatureScheme) (key : SigningKey) {content : Bytes}
    (hcontent : message.encodeContent = .ok content) :
    ∃ lines, message.encode scheme key =
      .ok ((Field.signature.record (scheme.sign key.seed (signatureLabel ++ content))).layout ++ content,
        lines) := by
  rw [encode, hcontent]
  simp only [Record.encode_of_fits (fits_signature _ _ _)]
  exact ⟨_, rfl⟩

/-- **Messages arrive as they were sent.** A message without a kind is not written, nor is one that lists
more keys than members, nor one that holds a value too long for a record. Every other message is, and
whatever key is given to verify it with, reading it gives the same message, with the content that was
signed and its signature. It is verified with the given key, or else with the one that it lists for its
source, and if that belongs to the signing key, the signature is found to be good. -/
theorem encoded_message_arrives (scheme : SignatureScheme) (message : Message) (key : SigningKey) :
    (message.kind = none → message.encode scheme key = .error .missingKind) ∧
    (message.kind ≠ none → ¬message.KeysFitMembers →
      message.encode scheme key = .error .moreKeysThanMembers) ∧
    (message.kind ≠ none → message.KeysFitMembers →
      (∃ value ∈ message.values, Record.maxValueSize < value.length) →
      message.encode scheme key = .error (.write .valueTooLong)) ∧
    ∀ kind, message.kind = some kind → message.KeysFitMembers →
      (∀ value ∈ message.values, value.length ≤ Record.maxValueSize) →
      ∃ content data lines, message.encodeContent = .ok content ∧
        message.encode scheme key = .ok (data, lines) ∧
        ∀ given, ∃ envelope lines, Envelope.decode scheme given data = .ok (envelope, lines) ∧
          envelope.message = message ∧
          envelope.printedKeys = message.intKeys.map Base64.encode ∧
          envelope.agreement = some kind.agreement ∧ envelope.flow = some kind.flow ∧
          envelope.version = some 1 ∧ envelope.payload = [] ∧ envelope.raw = content ∧
          envelope.signature = scheme.sign key.seed (signatureLabel ++ content) ∧
          envelope.signature.length = 64 ∧
          (envelope.verified = true ↔ ∃ usable, given.or message.listedKey? = some usable ∧
            usable.length = 32 ∧
            scheme.verify usable (signatureLabel ++ content) envelope.signature = true) ∧
          (scheme.Sound → given.or message.listedKey? = some (scheme.publicKey key.seed) →
            envelope.verified = true) := by
  refine ⟨fun hkind => ?_, fun hkind hkeys => ?_, fun hkind hkeys hlong => ?_,
    fun kind hkind hkeys hvalues => ?_⟩
  · apply encode_of_encodeContent_eq_error
    rw [encodeContent, hkind]
  · obtain ⟨kind, hkind⟩ := Option.ne_none_iff_exists'.1 hkind
    apply encode_of_encodeContent_eq_error
    rw [encodeContent, hkind]
    exact if_neg hkeys
  · obtain ⟨kind, hkind⟩ := Option.ne_none_iff_exists'.1 hkind
    exact encode_of_encodeContent_eq_error (encodeContent_of_too_long hkind hkeys hlong)
  · obtain ⟨content, hstream, hcontent⟩ := encodeContent_eq_ok hkind hkeys hvalues
    obtain ⟨lines, hencode⟩ := encode_of_encodeContent_eq_ok scheme key hcontent
    refine ⟨content, _, lines, hcontent, hencode, fun given => ?_⟩
    obtain ⟨lines, hdecode⟩ := Envelope.decode_of_stream scheme given
      (fits_signature scheme key.seed (signatureLabel ++ content)) hstream (grammar_records hkind hkeys)
    rw [envelope_ofRecords_records hkind hkeys] at hdecode
    refine ⟨_, lines, hdecode, rfl, rfl, rfl, rfl, rfl, rfl, rfl, rfl, scheme.length_sign _ _,
      Envelope.verified_judged_iff rfl, fun hsound hkey => ?_⟩
    exact (Envelope.verified_judged_iff rfl).2
      ⟨_, hkey, scheme.length_publicKey key.seed, hsound key (signatureLabel ++ content)⟩

/-- A member that is listed twice leaves and discloses its key, under a scheme that knows one key and one
signature. -/
theorem quit_message_arrives :
    let scheme : SignatureScheme :=
      { publicKey := fun _ => List.replicate 32 1
        sign := fun _ _ => List.replicate 64 2
        verify := fun key _ signature =>
          key == List.replicate 32 1 && signature == List.replicate 64 2
        length_publicKey := fun _ => rfl
        length_sign := fun _ _ => rfl }
    let key : SigningKey := ⟨List.replicate 32 7, rfl⟩
    let message : Message :=
      { source := [97], kind := some ⟨0x00d3⟩, members := [[97], [98], [97]]
        pubKeys := [scheme.publicKey key.seed], sessionSignature := some []
        signingKey := some key.seed }
    scheme.Sound ∧ message.KeysFitMembers ∧
      (∀ value ∈ message.values, value.length ≤ Record.maxValueSize) ∧
      message.listedKey? = some (scheme.publicKey key.seed) ∧
      ∃ data lines, message.encode scheme key = .ok (data, lines) ∧
        ∃ envelope lines, Envelope.decode scheme none data = .ok (envelope, lines) ∧
          envelope.message = message ∧ envelope.verified = true := by
  intro scheme key message
  have hsound : scheme.Sound := fun key content => rfl
  have hkeys : message.KeysFitMembers := by decide
  have hvalues : ∀ value ∈ message.values, value.length ≤ Record.maxValueSize := by decide
  have hlisted : message.listedKey? = some (scheme.publicKey key.seed) := by decide
  obtain ⟨content, data, lines, -, hencode, hdecode⟩ :=
    (encoded_message_arrives scheme message key).2.2.2 ⟨0x00d3⟩ rfl hkeys hvalues
  obtain ⟨envelope, lines', hok, hmessage, -, -, -, -, -, -, -, -, -, hverified⟩ := hdecode none
  exact ⟨hsound, hkeys, hvalues, hlisted, data, lines, hencode, envelope, lines', hok, hmessage,
    hverified hsound hlisted⟩

end Message

end GroupChat.Greet
