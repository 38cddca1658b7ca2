import GroupChat.Proofs.GreetFields

/-!
# The grammar of greet messages

Which byte strings are greet messages. Main statement: data is accepted exactly if it is made up of
records, a signature first, that the grammar allows, whatever key it is to be verified with. All other
data is refused with an error about the data, never about a key.
-/

namespace GroupChat.Greet

variable {record : Record} {records : List Record} {signature raw content data : Bytes}
  {scheme : SignatureScheme} {given : Option Bytes} {envelope : Envelope}

/-- The records that make up a greet message, after its signature. -/
structure Grammar (records : List Record) : Prop where
  admitted : ∀ record ∈ records,
    ∃ field value, record = Field.record field value ∧ field.Admits value
  version : ∃ value, Field.version.record value ∈ records
  kind : ∃ value, Field.kind.record value ∈ records
  source : ∃ value, Field.source.record value ∈ records
  dest : ∃ value, Field.dest.record value ∈ records
  intKeys : (Field.intKey.values records).length ≤ (Field.member.values records).length
  nonces : (Field.nonce.values records).length ≤ (Field.member.values records).length
  pubKeys : (Field.pubKey.values records).length ≤ (Field.member.values records).length

theorem Grammar.admits_of_mem {field : Field} {value : Bytes} (hgrammar : Grammar records)
    (hmem : field.record value ∈ records) : field.Admits value := by
  obtain ⟨other, value', hrecord, hadmits⟩ := hgrammar.admitted _ hmem
  have hfield : field = other := Field.tag_injective (congrArg Record.tag hrecord)
  have hvalue : value = value' := congrArg Record.value hrecord
  rwa [hfield, hvalue]

theorem Grammar.exists_kind (hgrammar : Grammar records) :
    ∃ kind, (Message.ofRecords records).kind = some kind := by
  obtain ⟨value, hvalue, -⟩ := Field.exists_value?_eq_some hgrammar.kind
  exact ⟨Kind.ofValue value, congrArg (Option.map Kind.ofValue) hvalue⟩

/-- Of a greet message, what is kept besides the message goes by the message. -/
theorem Grammar.ofRecords_eq {kind : Kind} (hgrammar : Grammar records)
    (hkind : (Message.ofRecords records).kind = some kind) :
    Envelope.ofRecords signature raw records =
      { message := Message.ofRecords records
        agreement := some kind.agreement
        flow := some kind.flow
        printedKeys := (Message.ofRecords records).intKeys.map Base64.encode
        version := some protocolVersion
        signature
        raw } := by
  obtain ⟨version, hversion, hmem⟩ := Field.exists_value?_eq_some hgrammar.version
  cases hgrammar.admits_of_mem hmem
  obtain ⟨value, hvalue, rfl⟩ := Option.map_eq_some_iff.1 hkind
  rw [Envelope.ofRecords, hversion, hvalue]
  rfl

theorem Draft.checkComplete_eq_ok_iff {draft : Draft} :
    draft.checkComplete = .ok () ↔
      draft.envelope.version.isSome ∧ draft.envelope.message.kind.isSome ∧
        (draft.hasSource ∧ draft.hasDest) ∧ draft.envelope.message.KeysFitMembers := by
  have hkeys : (if draft.envelope.message.KeysFitMembers then .ok () else
      .error .moreKeysThanMembers : Except FormatError Unit) = .ok () ↔
        draft.envelope.message.KeysFitMembers := by
    rw [← ite_not, guard_eq_ok_iff, not_not, and_iff_left rfl]
  simp only [checkComplete, guard_eq_ok_iff, hkeys, Option.isNone_iff_eq_none,
    ← Option.isSome_iff_ne_none, Bool.or_eq_true, Bool.not_eq_true', not_or, Bool.not_eq_false]

theorem Draft.checkComplete_ofRecords_iff :
    (ofRecords signature raw records).checkComplete = .ok () ↔
      (∃ value, Field.version.record value ∈ records) ∧
      (∃ value, Field.kind.record value ∈ records) ∧
      ((∃ value, Field.source.record value ∈ records) ∧
        ∃ value, Field.dest.record value ∈ records) ∧
      (Message.ofRecords records).KeysFitMembers := by
  rw [checkComplete_eq_ok_iff]
  simp only [ofRecords, Envelope.ofRecords, Message.ofRecords, Option.isSome_map,
    Field.isSome_value?_iff]

/-- The grammar allows just what can be taken in record by record and is complete in the end. -/
theorem grammar_iff_foldlM_read (signature raw : Bytes) :
    Grammar records ↔
      ∃ draft, records.foldlM Draft.read (.start signature raw) = .ok draft ∧
        draft.checkComplete = .ok () := by
  simp only [Draft.foldlM_read_eq_ok_iff]
  constructor
  · intro hgrammar
    exact ⟨_, ⟨hgrammar.admitted, rfl⟩, Draft.checkComplete_ofRecords_iff.2 ⟨hgrammar.version,
      hgrammar.kind, ⟨hgrammar.source, hgrammar.dest⟩, hgrammar.intKeys, hgrammar.nonces,
      hgrammar.pubKeys⟩⟩
  · rintro ⟨_, ⟨hadmitted, rfl⟩, hcomplete⟩
    obtain ⟨hversion, hkind, ⟨hsource, hdest⟩, hintKeys, hnonces, hpubKeys⟩ :=
      Draft.checkComplete_ofRecords_iff.1 hcomplete
    exact ⟨hadmitted, hversion, hkind, hsource, hdest, hintKeys, hnonces, hpubKeys⟩

/-- The leading signature is split off wherever one is laid out. -/
theorem splitSignature_eq_ok_iff :
    splitSignature data = .ok (signature, content) ↔
      (Field.signature.record signature).Fits ∧
        data = (Field.signature.record signature).layout ++ content := by
  unfold splitSignature
  constructor
  · intro hsplit
    split at hsplit
    · rename_i htag
      split at hsplit
      · cases hsplit
      · rename_i record rest hnext
        cases hsplit
        obtain ⟨hfits, hlayout⟩ := Reader.next_eq_ok_iff.1 hnext
        rw [hlayout, Reader.peekTag?_layout_append] at htag
        rw [← Field.eq_record_of_tag (Option.some.inj htag)]
        exact ⟨hfits, hlayout⟩
    · cases hsplit
  · rintro ⟨hfits, rfl⟩
    have htag := Reader.peekTag?_layout_append (Field.signature.record signature) content
    rw [htag, Field.record, if_pos rfl, ← Field.record, Reader.next_eq_ok_iff.2 ⟨hfits, rfl⟩]
    rfl

namespace Envelope

/-- A message is read behind its signature, record by record. -/
theorem parse_eq_ok_iff_foldlM :
    parse data = .ok envelope ↔
      ∃ signature content records draft, (Field.signature.record signature).Fits ∧
        data = (Field.signature.record signature).layout ++ content ∧
        Record.Stream records content ∧
        records.foldlM Draft.read (.start signature content) = .ok draft ∧
        draft.checkComplete = .ok () ∧ envelope = draft.envelope := by
  simp only [parse, bind_eq_ok_iff, Reader.readInto_eq_ok_iff, mapError_eq_ok_iff]
  constructor
  · rintro ⟨⟨signature, content⟩, hsplit, draft, ⟨records, hstream, hread⟩, ⟨⟩, hcomplete, henvelope⟩
    obtain ⟨hfits, hlayout⟩ := splitSignature_eq_ok_iff.1 hsplit
    exact ⟨signature, content, records, draft, hfits, hlayout, hstream, hread, hcomplete,
      (Except.ok.inj henvelope).symm⟩
  · rintro ⟨signature, content, records, draft, hfits, hlayout, hstream, hread, hcomplete, rfl⟩
    exact ⟨(signature, content), splitSignature_eq_ok_iff.2 ⟨hfits, hlayout⟩, draft,
      ⟨records, hstream, hread⟩, (), hcomplete, rfl⟩

theorem parse_eq_ok_iff :
    parse data = .ok envelope ↔
      ∃ signature content records, (Field.signature.record signature).Fits ∧
        data = (Field.signature.record signature).layout ++ content ∧
        Record.Stream records content ∧ Grammar records ∧
        envelope = ofRecords signature content records := by
  rw [parse_eq_ok_iff_foldlM]
  constructor
  · rintro ⟨signature, content, records, draft, hfits, hlayout, hstream, hread, hcomplete, rfl⟩
    have hgrammar := (grammar_iff_foldlM_read signature content).2 ⟨draft, hread, hcomplete⟩
    obtain ⟨-, rfl⟩ := Draft.foldlM_read_eq_ok_iff.1 hread
    exact ⟨signature, content, records, hfits, hlayout, hstream, hgrammar, rfl⟩
  · rintro ⟨signature, content, records, hfits, hlayout, hstream, hgrammar, rfl⟩
    obtain ⟨draft, hread, hcomplete⟩ := (grammar_iff_foldlM_read signature content).1 hgrammar
    obtain ⟨-, rfl⟩ := Draft.foldlM_read_eq_ok_iff.1 hread
    exact ⟨signature, content, records, _, hfits, hlayout, hstream, hread, hcomplete, rfl⟩

theorem usableKey?_eq_some_iff {key : Bytes} :
    envelope.usableKey? given = some key ↔
      given.or envelope.message.listedKey? = some key ∧ key.length = 32 := by
  rw [usableKey?, Option.filter_eq_some_iff, beq_iff_eq]
  cases given with
  | none => rfl
  | some given => rfl

/-- The message, with the verdict of the key that it is verified with. -/
def judged (envelope : Envelope) (scheme : SignatureScheme) (given : Option Bytes) : Envelope :=
  { envelope with
    verified := match envelope.usableKey? given with
      | none => envelope.verified
      | some key => scheme.verify key (signatureLabel ++ envelope.raw) envelope.signature }

/-- Looking at the signature never fails, since no key is used that the scheme refuses. -/
theorem verify_eq_ok (envelope : Envelope) (scheme : SignatureScheme) (given : Option Bytes) :
    ∃ lines, envelope.verify scheme given = .ok (envelope.judged scheme given, lines) := by
  unfold verify judged
  cases hkey : envelope.usableKey? given with
  | none => exact ⟨_, rfl⟩
  | some key =>
      simp only [verifiesUnder, SignatureScheme.verifyWith, if_pos (usableKey?_eq_some_iff.1 hkey).2]
      exact ⟨_, rfl⟩

theorem verified_judged_iff (hverified : envelope.verified = false) :
    (envelope.judged scheme given).verified = true ↔
      ∃ key, given.or envelope.message.listedKey? = some key ∧ key.length = 32 ∧
        scheme.verify key (signatureLabel ++ envelope.raw) envelope.signature = true := by
  simp only [← and_assoc, ← usableKey?_eq_some_iff, judged]
  cases hkey : envelope.usableKey? given with
  | none => simp [hverified]
  | some key => simp

theorem decode_of_stream (scheme : SignatureScheme) (given : Option Bytes)
    (hfits : (Field.signature.record signature).Fits) (hstream : Record.Stream records content)
    (hgrammar : Grammar records) :
    ∃ lines, decode scheme given ((Field.signature.record signature).layout ++ content) =
      .ok ((ofRecords signature content records).judged scheme given, lines) := by
  have hparse := parse_eq_ok_iff.2
    ⟨signature, content, records, hfits, rfl, hstream, hgrammar, rfl⟩
  obtain ⟨lines, hverify⟩ := verify_eq_ok (ofRecords signature content records) scheme given
  exact ⟨lines, bind_eq_ok_iff.2 ⟨_, hparse, mapError_eq_ok_iff.2 hverify⟩⟩

theorem exists_parse_of_decode_eq_ok {lines : List Log.Line}
    (hdecode : decode scheme given data = .ok (envelope, lines)) :
    ∃ parsed, parse data = .ok parsed ∧ envelope = parsed.judged scheme given := by
  obtain ⟨parsed, hparse, hverdict⟩ := bind_eq_ok_iff.1 hdecode
  obtain ⟨lines', hverify⟩ := verify_eq_ok parsed scheme given
  rw [mapError_eq_ok_iff.1 hverdict] at hverify
  exact ⟨parsed, hparse, congrArg Prod.fst (Except.ok.inj hverify)⟩

/-- All that an accepted message was read from. -/
theorem stream_of_decode_eq_ok {lines : List Log.Line}
    (hdecode : decode scheme given data = .ok (envelope, lines)) :
    ∃ signature content records, (Field.signature.record signature).Fits ∧
      data = (Field.signature.record signature).layout ++ content ∧
      Record.Stream records content ∧ Grammar records ∧
      envelope = (ofRecords signature content records).judged scheme given := by
  obtain ⟨parsed, hparse, rfl⟩ := exists_parse_of_decode_eq_ok hdecode
  obtain ⟨signature, content, records, hfits, hlayout, hstream, hgrammar, rfl⟩ :=
    parse_eq_ok_iff.1 hparse
  exact ⟨signature, content, records, hfits, hlayout, hstream, hgrammar, rfl⟩

end Envelope

/-- Whatever goes wrong, it is not about a key. -/
def Keyless {α : Type} (result : Except DecodeError α) : Prop :=
  ∀ error, result ≠ .error (.key error)

namespace Keyless

variable {α β : Type} {result : Except DecodeError α} {rest : α → Except DecodeError β}

theorem ok (value : α) : Keyless (.ok value) := nofun

theorem read (error : ReadError) : Keyless (.error (.read error) : Except DecodeError α) := nofun

theorem format (error : FormatError) : Keyless (.error (.format error) : Except DecodeError α) := nofun

theorem bind (hresult : Keyless result) (hrest : ∀ value, Keyless (rest value)) :
    Keyless (result >>= rest) := by
  cases result with
  | error error =>
      rintro cause ⟨⟩
      exact hresult cause rfl
  | ok value => exact hrest value

end Keyless

theorem fixedWidth_keyless (width : Nat) (record : Record) : Keyless (fixedWidth width record) := by
  unfold fixedWidth
  split
  · cases record.integer with
    | error error => exact .read error
    | ok number => exact .ok number
  · exact .format _

theorem Envelope.read_keyless (envelope : Envelope) (record : Record) : Keyless (envelope.read record) := by
  unfold read
  split
  · exact .ok _
  · refine (fixedWidth_keyless 1 record).bind fun version => ?_
    split
    · exact .format _
    · exact .ok _
  · refine (fixedWidth_keyless 1 record).bind fun category => ?_
    split
    · exact .format _
    · exact .ok _
  · exact (fixedWidth_keyless 2 record).bind fun _ => .ok _
  all_goals first
    | exact .ok _
    | exact .format _

theorem parse_keyless (data : Bytes) : Keyless (Envelope.parse data) := by
  have hsplit : Keyless (splitSignature data) := by
    unfold splitSignature
    split
    · split
      · exact .read _
      · exact .ok _
    · exact .format _
  have hread : ∀ start content, Keyless (Reader.readInto .read Draft.read start content) := by
    intro start content cause herror
    rcases Reader.error_of_readInto_eq_error herror with ⟨other, heq⟩ | ⟨draft, record, hrecord⟩
    · cases heq
    · exact ((draft.envelope.read_keyless record).bind fun _ => .ok _) cause hrecord
  have hcomplete : ∀ draft : Draft, Keyless (draft.checkComplete.mapError .format) := by
    intro draft
    cases draft.checkComplete with
    | error error => exact .format error
    | ok value => exact .ok value
  refine hsplit.bind fun halves => (hread _ _).bind fun draft => ?_
  exact (hcomplete draft).bind fun _ => .ok _

namespace Envelope

/-- **The grammar of greet messages.** A byte string is accepted if and only if it is made up of a
signature and of records that follow the grammar, whatever key it is to be verified with. Every other one
is refused for what it says or because it is cut short, and never because of a key. -/
theorem decode_accepts_grammar (scheme : SignatureScheme) (given : Option Bytes) (data : Bytes) :
    ((∃ envelope lines, decode scheme given data = .ok (envelope, lines)) ↔
      ∃ signature records, Record.Stream (Field.signature.record signature :: records) data ∧
        Grammar records) ∧
    ∀ error, decode scheme given data = .error error →
      (∃ cause, error = .read cause) ∨ ∃ cause, error = .format cause := by
  constructor
  · simp only [Record.stream_cons_iff]
    constructor
    · rintro ⟨envelope, lines, hdecode⟩
      obtain ⟨parsed, hparse, -⟩ := bind_eq_ok_iff.1 hdecode
      obtain ⟨signature, content, records, hfits, hlayout, hstream, hgrammar, -⟩ :=
        parse_eq_ok_iff.1 hparse
      exact ⟨signature, records, ⟨hfits, content, hlayout, hstream⟩, hgrammar⟩
    · rintro ⟨signature, records, ⟨hfits, content, rfl, hstream⟩, hgrammar⟩
      exact ⟨_, decode_of_stream scheme given hfits hstream hgrammar⟩
  · intro error herror
    have hkeyless : Keyless (decode scheme given data) := by
      refine (parse_keyless data).bind fun parsed => ?_
      obtain ⟨lines, hverify⟩ := verify_eq_ok parsed scheme given
      rw [hverify]
      exact .ok _
    cases error with
    | read cause => exact Or.inl ⟨cause, rfl⟩
    | format cause => exact Or.inr ⟨cause, rfl⟩
    | key cause => exact absurd herror (hkeyless cause)

end Envelope

end GroupChat.Greet
