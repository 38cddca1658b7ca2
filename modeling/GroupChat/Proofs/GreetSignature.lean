import GroupChat.Proofs.GreetGrammar

/-!
# What the signature of a greet message covers

A greet message is a signature and the content behind it. Main statement: the signature is checked over
that content, with the given key or the one that the content lists for its source, and nothing else that is
read depends on the signature or on the key.
-/

namespace GroupChat.Greet

namespace Message

variable {message : Message} {key : Bytes}

/-- The key stands where the source of the message is first mentioned among its members. -/
def ListsKey (message : Message) (key : Bytes) : Prop :=
  ∃ index : Nat, message.members[index]? = some message.source ∧
    (∀ earlier < index, message.members[earlier]? ≠ some message.source) ∧
    message.pubKeys[index]? = some key

theorem findIdx?_beq_eq_some_iff {members : List MemberId} {source : MemberId} {index : Nat} :
    members.findIdx? (· == source) = some index ↔
      members[index]? = some source ∧ ∀ earlier < index, members[earlier]? ≠ some source := by
  simp only [List.findIdx?_eq_some_iff_getElem, beq_iff_eq, List.getElem?_eq_some_iff, ne_eq]
  constructor
  · rintro ⟨hindex, hsource, hfirst⟩
    refine ⟨⟨hindex, hsource⟩, fun earlier hearlier => ?_⟩
    rintro ⟨_, hmention⟩
    exact hfirst earlier hearlier hmention
  · rintro ⟨⟨hindex, hsource⟩, hfirst⟩
    exact ⟨hindex, hsource, fun earlier hearlier hmention =>
      hfirst earlier hearlier ⟨Nat.lt_trans hearlier hindex, hmention⟩⟩

theorem listedKey?_eq_some_iff : message.listedKey? = some key ↔ message.ListsKey key := by
  simp only [listedKey?, Option.bind_eq_bind, Option.bind_eq_some_iff, findIdx?_beq_eq_some_iff,
    and_assoc, ListsKey]

end Message

/-- The same message behind another signature. -/
def Envelope.signed (envelope : Envelope) (signature : Bytes) : Envelope := { envelope with signature }

/-- The same draft behind another signature. -/
def Draft.signed (draft : Draft) (signature : Bytes) : Draft :=
  { draft with envelope := draft.envelope.signed signature }

/-- Whether a record can be taken in, and to what effect, has nothing to do with the signature. -/
theorem Envelope.read_signed (envelope : Envelope) (signature : Bytes) (record : Record) :
    (envelope.signed signature).read record = (envelope.read record).map (·.signed signature) := by
  unfold read
  cases Field.ofTag? record.tag with
  | none => rfl
  | some field =>
      cases field with
      | version | category =>
          cases fixedWidth 1 record with
          | error error => rfl
          | ok number =>
              dsimp only [bind, Except.bind]
              split <;> rfl
      | kind =>
          cases fixedWidth 2 record with
          | error error => rfl
          | ok number => rfl
      | _ => rfl

theorem Draft.read_signed (signature : Bytes) (draft : Draft) (record : Record) :
    (draft.signed signature).read record = (draft.read record).map (·.signed signature) := by
  have henvelope := draft.envelope.read_signed signature record
  unfold read
  rw [signed, henvelope]
  cases draft.envelope.read record with
  | error error => rfl
  | ok envelope => rfl

namespace Envelope

variable {scheme : SignatureScheme} {given : Option Bytes} {signature content data : Bytes}
  {envelope : Envelope} {lines : List Log.Line}

/-- Behind another signature, the same content is refused with the same error or read to the same effect. -/
theorem parse_layout_append {signature' : Bytes} (content : Bytes)
    (hfits : (Field.signature.record signature).Fits)
    (hfits' : (Field.signature.record signature').Fits) :
    parse ((Field.signature.record signature').layout ++ content) =
      (parse ((Field.signature.record signature).layout ++ content)).map (·.signed signature') := by
  have hread : Reader.readInto .read Draft.read (.start signature' content) content =
      (Reader.readInto .read Draft.read (.start signature content) content).map (·.signed signature') :=
    Reader.readInto_map (Draft.read_signed signature') (.start signature content) content
  have hcomplete : ∀ draft : Draft, (draft.signed signature').checkComplete = draft.checkComplete :=
    fun draft => rfl
  rw [parse, parse, splitSignature_eq_ok_iff.2 ⟨hfits, rfl⟩, splitSignature_eq_ok_iff.2 ⟨hfits', rfl⟩]
  dsimp only [bind, Except.bind]
  rw [hread]
  cases Reader.readInto .read Draft.read (.start signature content) content with
  | error error => rfl
  | ok draft =>
      dsimp only [Except.map]
      rw [hcomplete]
      cases draft.checkComplete with
      | error error => rfl
      | ok value => rfl

theorem verified_iff_of_decode_eq_ok (hdecode : decode scheme given data = .ok (envelope, lines)) :
    envelope.verified = true ↔
      ∃ key, (given = some key ∨ given = none ∧ envelope.message.ListsKey key) ∧ key.length = 32 ∧
        scheme.verify key (signatureLabel ++ envelope.raw) envelope.signature = true := by
  obtain ⟨signature, content, records, -, -, -, -, rfl⟩ := stream_of_decode_eq_ok hdecode
  rw [verified_judged_iff rfl]
  simp only [Option.or_eq_some_iff, Message.listedKey?_eq_some_iff]
  rfl

/-- **What a signature covers.** The signature of an accepted message is its first record, and the raw
content is all that follows. The signature is good if and only if it verifies the labelled content under a
key of the right size, which is the given one or else the one that the message lists for its source. Of two
inputs with the same content behind their signatures, either both are refused with the same error, or both
are accepted, and then they differ in nothing but the signature and the verdict about it. -/
theorem signature_covers_content (scheme : SignatureScheme) :
    (∀ given data envelope lines, decode scheme given data = .ok (envelope, lines) →
      (Field.signature.record envelope.signature).Fits ∧
      data = (Field.signature.record envelope.signature).layout ++ envelope.raw ∧
      (envelope.verified = true ↔
        ∃ key, (given = some key ∨ given = none ∧ envelope.message.ListsKey key) ∧ key.length = 32 ∧
          scheme.verify key (Bytes.ofString "greetmsgsig" ++ envelope.raw) envelope.signature = true)) ∧
    ∀ (given given' : Option Bytes) (signature signature' content : Bytes),
      (Field.signature.record signature).Fits → (Field.signature.record signature').Fits →
      (∃ error,
        decode scheme given ((Field.signature.record signature).layout ++ content) = .error error ∧
        decode scheme given' ((Field.signature.record signature').layout ++ content) = .error error) ∨
      ∃ envelope lines lines' verified,
        decode scheme given ((Field.signature.record signature).layout ++ content) =
          .ok (envelope, lines) ∧
        decode scheme given' ((Field.signature.record signature').layout ++ content) =
          .ok ({ envelope with signature := signature', verified := verified }, lines') := by
  refine ⟨fun given data envelope lines hdecode => ?_,
    fun given given' signature signature' content hfits hfits' => ?_⟩
  · have hverified := verified_iff_of_decode_eq_ok hdecode
    obtain ⟨signature, content, records, hfits, hlayout, -, -, rfl⟩ := stream_of_decode_eq_ok hdecode
    exact ⟨hfits, hlayout, hverified⟩
  · have hsame := parse_layout_append content hfits hfits'
    cases hparse : parse ((Field.signature.record signature).layout ++ content) with
    | error error =>
        rw [hparse] at hsame
        refine Or.inl ⟨error, ?_, ?_⟩
        · rw [decode, hparse]
          rfl
        · rw [decode, hsame]
          rfl
    | ok envelope =>
        rw [hparse] at hsame
        obtain ⟨lines, hverify⟩ := verify_eq_ok envelope scheme given
        obtain ⟨lines', hverify'⟩ := verify_eq_ok (envelope.signed signature') scheme given'
        refine Or.inr ⟨_, lines, lines', ((envelope.signed signature').judged scheme given').verified,
          bind_eq_ok_iff.2 ⟨_, hparse, mapError_eq_ok_iff.2 hverify⟩,
          bind_eq_ok_iff.2 ⟨_, hsame, mapError_eq_ok_iff.2 hverify'⟩⟩

/-- The key of a source that is listed twice stands at its first mention. Under a scheme that knows one key
and one signature, that signature is good and any other is not, and all else that is read stays the same. -/
theorem first_mention_verifies :
    let scheme : SignatureScheme :=
      { publicKey := fun _ => List.replicate 32 1
        sign := fun _ _ => List.replicate 64 2
        verify := fun key _ signature =>
          key == List.replicate 32 1 && signature == List.replicate 64 2
        length_publicKey := fun _ => rfl
        length_sign := fun _ _ => rfl }
    let records : List Record :=
      [Field.version.record [1], Field.kind.record [0, 0xd3], Field.source.record [97],
        Field.dest.record [], Field.member.record [98], Field.member.record [97],
        Field.member.record [97], Field.pubKey.record [7],
        Field.pubKey.record (List.replicate 32 1), Field.pubKey.record []]
    let content := records.flatMap Record.layout
    ∃ envelope lines lines',
      Envelope.decode scheme none ((Field.signature.record (List.replicate 64 2)).layout ++ content) =
        .ok (envelope, lines) ∧
      envelope.verified = true ∧
      Envelope.decode scheme none ((Field.signature.record [2]).layout ++ content) =
        .ok ({ envelope with signature := [2], verified := false }, lines') := by
  intro scheme records content
  have hfits : (Field.signature.record (List.replicate 64 2)).Fits := by decide
  have hfits' : (Field.signature.record [2]).Fits := by decide
  have hstream : Record.Stream records content := ⟨by decide, rfl⟩
  have hgrammar : Grammar records := (grammar_iff_foldlM_read [] []).2 ⟨_, rfl, by decide⟩
  obtain ⟨hcovered, hshared⟩ := signature_covers_content scheme
  obtain ⟨_, hread⟩ := decode_of_stream scheme none hfits hstream hgrammar
  rcases hshared none none _ _ content hfits hfits' with
    ⟨error, herror, -⟩ | ⟨envelope, lines, lines', verified, hdecode, hdecode'⟩
  · cases herror.symm.trans hread
  · cases hdecode.symm.trans hread
    obtain ⟨-, -, hgood⟩ := hcovered none _ _ _ hdecode
    obtain ⟨-, -, hbad⟩ := hcovered none _ _ _ hdecode'
    have hlists : (Message.ofRecords records).ListsKey (List.replicate 32 1) :=
      ⟨1, by decide, by decide, by decide⟩
    have hother : ¬(([2] : Bytes) == List.replicate 64 2) = true := by decide
    have hverified : verified = false := by
      rw [Bool.eq_false_iff, ne_eq, hbad]
      rintro ⟨key, -, -, hverify⟩
      exact hother (Bool.and_eq_true_iff.1 hverify).2
    rw [hverified] at hdecode'
    exact ⟨_, _, lines', hdecode, hgood.2 ⟨_, Or.inr ⟨rfl, hlists⟩, rfl, rfl⟩, hdecode'⟩

end Envelope

end GroupChat.Greet
