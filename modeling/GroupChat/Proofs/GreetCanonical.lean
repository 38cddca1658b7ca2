import GroupChat.Proofs.GreetRoundTrip
import GroupChat.Proofs.GreetSummary

/-!
# The canonical form of a greet message

Many byte strings say the same message, and one of them is what is written for it. Main statement: writing
an accepted message again gives content that reads as the same message and is written as itself, and this
is the content that was read exactly if its records were in canonical form.
-/

namespace GroupChat.Greet

section Order

variable {record : Record} {records : List Record} {fields : List Field}

/-- Where a record stands among some fields, or behind all of them if it belongs to none. -/
def Field.place (fields : List Field) (record : Record) : Nat := fields.findIdx (·.tag == record.tag)

theorem Field.place_cons_of_ne {field : Field} (hne : record.tag ≠ field.tag) :
    place (field :: fields) record = place fields record + 1 := by
  have hfalse : (field.tag == record.tag) = false := beq_false_of_ne hne.symm
  rw [place, List.findIdx_cons, hfalse]
  rfl

theorem Field.place_cons_eq_zero_iff {field : Field} :
    place (field :: fields) record = 0 ↔ record.tag = field.tag := by
  by_cases heq : record.tag = field.tag
  · refine iff_of_true ?_ heq
    rw [place, List.findIdx_cons, heq, BEq.rfl, cond_true]
  · rw [place_cons_of_ne heq]
    exact iff_of_false (Nat.succ_ne_zero _) heq

/-- Without its first field, the order of the fields leaves the records of the others as they stand. -/
theorem Field.place_le_of_ne {field : Field} {first second : Record} (hfirst : first.tag ≠ field.tag)
    (hsecond : second.tag ≠ field.tag)
    (hle : place (field :: fields) first ≤ place (field :: fields) second) :
    place fields first ≤ place fields second := by
  rw [place_cons_of_ne hfirst, place_cons_of_ne hsecond] at hle
  omega

/-- The records of a field are the same among those that do not belong to another field. -/
theorem Field.filter_filter_of_ne {field other : Field} (hne : other ≠ field) (records : List Record) :
    (records.filter fun record => !(record.tag == field.tag)).filter (·.tag == other.tag) =
      records.filter (·.tag == other.tag) := by
  rw [List.filter_filter]
  refine List.filter_congr fun record _ => ?_
  by_cases htag : record.tag = other.tag
  · have hnot : record.tag ≠ field.tag := fun heq => hne (tag_injective (htag.symm.trans heq))
    simp [htag, beq_false_of_ne (htag ▸ hnot)]
  · simp [beq_false_of_ne htag]

theorem Field.records_values (field : Field) (records : List Record) :
    field.records (field.values records) = records.filter (·.tag == field.tag) := by
  rw [Field.records, values, List.map_map]
  refine (List.map_congr_left fun record hmem => ?_).trans (List.map_id _)
  have htag : record.tag = field.tag := beq_iff_eq.1 (List.mem_filter.1 hmem).2
  exact (eq_record_of_tag htag).symm

/-- If nothing that passes comes behind something that does not, those that pass are the front. -/
theorem filter_append_filter_not {α : Type} {passes : α → Bool} {items : List α}
    (hfront : items.Pairwise fun first second => passes second = true → passes first = true) :
    items.filter passes ++ items.filter (fun item => !passes item) = items := by
  induction items with
  | nil => rfl
  | cons item rest ih =>
      obtain ⟨hitem, hrest⟩ := List.pairwise_cons.1 hfront
      by_cases hpasses : passes item = true
      · rw [List.filter_cons_of_pos hpasses, List.filter_cons_of_neg (by simp [hpasses]),
          List.cons_append, ih hrest]
      · have hnone : rest.filter passes = [] :=
          List.filter_eq_nil_iff.2 fun other hmem hother => hpasses (hitem other hmem hother)
        have hall := ih hrest
        rw [hnone, List.nil_append] at hall
        rw [List.filter_cons_of_neg hpasses, List.filter_cons_of_pos (by simp [hpasses]), hnone, hall,
          List.nil_append]

/-- Records that come in the order of some fields are those of the first field, then those of the second
one, and so on. -/
theorem Field.eq_flatMap_of_ordered (hfields : fields.Nodup)
    (hplaced : ∀ record ∈ records, ∃ field ∈ fields, record.tag = field.tag)
    (hordered : records.Pairwise fun first second => place fields first ≤ place fields second) :
    records = fields.flatMap fun field => field.records (field.values records) := by
  simp only [records_values]
  induction fields generalizing records with
  | nil =>
      refine List.eq_nil_iff_forall_not_mem.2 fun record hmem => ?_
      obtain ⟨field, hfield, -⟩ := hplaced record hmem
      exact List.not_mem_nil hfield
  | cons field rest ih =>
      obtain ⟨hfield, hrest⟩ := List.nodup_cons.1 hfields
      have hfront : records.Pairwise fun first second =>
          (second.tag == field.tag) = true → (first.tag == field.tag) = true := by
        refine hordered.imp fun {first second} hle hsecond => ?_
        have hplace : place (field :: rest) second = 0 := place_cons_eq_zero_iff.2 (beq_iff_eq.1 hsecond)
        have hzero : place (field :: rest) first = 0 := by omega
        exact beq_iff_eq.2 (place_cons_eq_zero_iff.1 hzero)
      generalize hlater : records.filter (fun record => !(record.tag == field.tag)) = later
      have hmem : ∀ record ∈ later, record ∈ records ∧ record.tag ≠ field.tag := by
        intro record hrecord
        rw [← hlater, List.mem_filter] at hrecord
        exact ⟨hrecord.1, by simpa using hrecord.2⟩
      have hothers : later = rest.flatMap fun field => later.filter (·.tag == field.tag) := by
        refine ih hrest (fun record hrecord => ?_) ?_
        · obtain ⟨other, hother, htag⟩ := hplaced record (hmem record hrecord).1
          rcases List.mem_cons.1 hother with rfl | hother
          · exact absurd htag (hmem record hrecord).2
          · exact ⟨other, hother, htag⟩
        · have hsub : later.Pairwise fun first second =>
              place (field :: rest) first ≤ place (field :: rest) second := by
            rw [← hlater]
            exact hordered.filter _
          exact hsub.imp_of_mem fun hfirst hsecond => place_le_of_ne (hmem _ hfirst).2 (hmem _ hsecond).2
      have hsame : ∀ other ∈ rest,
          later.filter (·.tag == other.tag) = records.filter (·.tag == other.tag) := by
        intro other hother
        rw [← hlater, filter_filter_of_ne (ne_of_mem_of_not_mem hother hfield)]
      calc
        records = records.filter (·.tag == field.tag) ++ later := by
          rw [← hlater, filter_append_filter_not hfront]
        _ = records.filter (·.tag == field.tag) ++
            rest.flatMap fun field => records.filter (·.tag == field.tag) := by
          rw [List.flatMap_def, ← List.map_congr_left hsame, ← List.flatMap_def, ← hothers]
        _ = (field :: rest).flatMap fun field => records.filter (·.tag == field.tag) := by
          rw [List.flatMap_cons]

end Order

variable {records : List Record} {message : Message} {kind : Kind} {field : Field} {value : Bytes}

/-- Records without padding, in the order in which the fields of a message are written, that name all
single fields once and the optional ones at most once. -/
structure Canonical (records : List Record) : Prop where
  unpadded : ∀ record ∈ records, record.tag ≠ Field.padding.tag
  ordered : records.Pairwise fun first second =>
    Field.place Message.writtenFields first ≤ Field.place Message.writtenFields second
  once : ∀ field ∈ [Field.version, .category, .kind, .source, .dest], (field.values records).length = 1
  atMostOnce : ∀ field ∈ [Field.sessionSignature, .signingKey], (field.values records).length ≤ 1

theorem Field.toList_value? (hlength : (field.values records).length ≤ 1) :
    (field.value? records).toList = field.values records := by
  rw [value?]
  cases hvalues : field.values records with
  | nil => rfl
  | cons value rest =>
      rw [hvalues, List.length_cons] at hlength
      have hrest : rest = [] := List.length_eq_zero_iff.1 (by omega)
      rw [hrest, List.getLast?_singleton]
      rfl

theorem Field.singleton_value? (hlength : (field.values records).length = 1) :
    [(field.value? records).getD []] = field.values records := by
  obtain ⟨value, hvalue⟩ := List.length_eq_one_iff.1 hlength
  rw [value?, hvalue, List.getLast?_singleton, Option.getD_some]

theorem Canonical.exists_values_eq (hcanonical : Canonical records) (hgrammar : Grammar records)
    (field : Field) (hfield : field ∈ [Field.version, .category, .kind, .source, .dest]) :
    ∃ value, field.values records = [value] ∧ field.Admits value := by
  obtain ⟨value, hvalue⟩ := List.length_eq_one_iff.1 (hcanonical.once field hfield)
  refine ⟨value, hvalue, hgrammar.admits_of_mem (Field.mem_values_iff.1 ?_)⟩
  rw [hvalue]
  exact List.mem_singleton_self value

/-- The two bytes that a kind is read from are those that it is written in. -/
theorem Kind.bigEndian_ofValue (hlength : value.length = 2) :
    Integer.bigEndian 2 (ofValue value).bits.toNat = value := by
  have hbits : Integer.ofBigEndian value < Integer.capacity 2 := by
    rw [← hlength]
    exact Integer.ofBigEndian_lt_capacity value
  have hnumber : (ofValue value).bits.toNat = Integer.ofBigEndian value := Nat.mod_eq_of_lt hbits
  rw [hnumber, ← hlength, Integer.bigEndian_ofBigEndian]

namespace Message

theorem nodup_writtenFields : writtenFields.Nodup := by decide

theorem place_record (field : Field) (value : Bytes) :
    Field.place writtenFields (field.record value) = writtenFields.idxOf field := by
  change writtenFields.findIdx (·.tag == field.tag) = writtenFields.idxOf field
  refine congrArg (writtenFields.findIdx ·) (funext fun other => ?_)
  exact Bool.eq_iff_iff.2 (by simp only [beq_iff_eq, Field.tag_injective.eq_iff])

theorem canonical_records (message : Message) (kind : Kind) : Canonical (message.records kind) where
  unpadded := by
    intro record hmem htag
    obtain ⟨field, value, hvalue, rfl⟩ := mem_records_iff.1 hmem
    rw [Field.tag_injective htag] at hvalue
    exact List.not_mem_nil hvalue
  ordered := by
    rw [records_eq, List.pairwise_flatMap]
    have hplace : ∀ field, ∀ record ∈ field.records (message.contents kind field),
        Field.place writtenFields record = writtenFields.idxOf field := by
      intro field record hmem
      obtain ⟨value, -, rfl⟩ := List.mem_map.1 hmem
      exact place_record field value
    constructor
    · intro field _
      refine List.pairwise_of_forall_mem_list fun first hfirst second hsecond => ?_
      exact Nat.le_of_eq ((hplace field first hfirst).trans (hplace field second hsecond).symm)
    · have hsorted : writtenFields.Pairwise fun first second =>
          writtenFields.idxOf first ≤ writtenFields.idxOf second := by decide
      refine hsorted.imp fun {earlier later} hle first hfirst second hsecond => ?_
      rwa [hplace earlier first hfirst, hplace later second hsecond]
  once := by
    simp [values_records, contents]
  atMostOnce := by
    have htoList : ∀ value? : Option Bytes, value?.toList.length ≤ 1 := by
      intro value?
      cases value? with
      | none => exact Nat.zero_le 1
      | some value => exact Nat.le_refl 1
    simp [values_records, contents, htoList]

/-- Every value that is written for an accepted message was read, its category apart. -/
theorem record_mem_of_mem_contents (hgrammar : Grammar records) (hfield : field ∈ freeFields)
    (hvalue : value ∈ (ofRecords records).contents kind field) : field.record value ∈ records := by
  have hsingle : ∀ field : Field, (∃ value, field.record value ∈ records) →
      field.record ((field.value? records).getD []) ∈ records := by
    intro field hpresent
    obtain ⟨value, hlast, hmem⟩ := Field.exists_value?_eq_some hpresent
    rwa [hlast]
  have hoptional : ∀ field : Field, value ∈ (field.value? records).toList →
      field.record value ∈ records := by
    intro field hlast
    exact Field.mem_values_iff.1 (List.mem_of_getLast? (Option.mem_toList.1 hlast))
  cases field with
  | source =>
      rw [List.mem_singleton.1 hvalue]
      exact hsingle .source hgrammar.source
  | dest =>
      rw [List.mem_singleton.1 hvalue]
      exact hsingle .dest hgrammar.dest
  | member | intKey | nonce | pubKey => exact Field.mem_values_iff.1 hvalue
  | sessionSignature | signingKey => exact hoptional _ hvalue
  | version | category | kind | padding | signature | payload | initialVector | sessionHint =>
      exact absurd hfield (by decide)

theorem contents_ofRecords (hgrammar : Grammar records) (hcanonical : Canonical records)
    (hkind : (ofRecords records).kind = some kind) (hfield : field ∈ writtenFields) :
    (ofRecords records).contents kind field = field.values records := by
  cases field with
  | version =>
      obtain ⟨value, hvalue, rfl⟩ := hcanonical.exists_values_eq hgrammar .version (by decide)
      exact hvalue.symm
  | category =>
      obtain ⟨value, hvalue, rfl⟩ := hcanonical.exists_values_eq hgrammar .category (by decide)
      exact hvalue.symm
  | kind =>
      obtain ⟨value, hvalue, hlength⟩ := hcanonical.exists_values_eq hgrammar .kind (by decide)
      have hread : some (Kind.ofValue value) = some kind := by
        rw [← hkind]
        change _ = ((Field.kind.values records).getLast?).map Kind.ofValue
        rw [hvalue, List.getLast?_singleton, Option.map_some]
      rw [hvalue, contents, ← Option.some.inj hread, Kind.bigEndian_ofValue hlength]
  | source | dest => exact Field.singleton_value? (hcanonical.once _ (by decide))
  | member | intKey | nonce | pubKey => rfl
  | sessionSignature | signingKey => exact Field.toList_value? (hcanonical.atMostOnce _ (by decide))
  | padding | signature | payload | initialVector | sessionHint => exact absurd hfield (by decide)

/-- Canonical records are those that are written for the message that they say. -/
theorem records_ofRecords (hgrammar : Grammar records) (hcanonical : Canonical records)
    (hkind : (ofRecords records).kind = some kind) : (ofRecords records).records kind = records := by
  have hplaced : ∀ record ∈ records, ∃ field ∈ writtenFields, record.tag = field.tag := by
    intro record hmem
    obtain ⟨field, value, rfl, hadmits⟩ := hgrammar.admitted record hmem
    refine ⟨field, ?_, rfl⟩
    cases field with
    | padding => exact absurd rfl (hcanonical.unpadded _ hmem)
    | signature | payload | initialVector | sessionHint => exact hadmits.elim
    | _ => decide
  have hcontents : ∀ field ∈ writtenFields, field.records ((ofRecords records).contents kind field) =
      field.records (field.values records) := by
    intro field hfield
    rw [contents_ofRecords hgrammar hcanonical hkind hfield]
  calc
    (ofRecords records).records kind =
        writtenFields.flatMap fun field => field.records ((ofRecords records).contents kind field) :=
      records_eq _ kind
    _ = writtenFields.flatMap fun field => field.records (field.values records) := by
      rw [List.flatMap_def, List.map_congr_left hcontents, ← List.flatMap_def]
    _ = records := (Field.eq_flatMap_of_ordered nodup_writtenFields hplaced hcanonical.ordered).symm

end Message

namespace Envelope

variable {scheme : SignatureScheme} {given : Option Bytes} {data : Bytes} {envelope : Envelope}
  {lines : List Log.Line}

/-- **Writing again normalises.** An accepted message can always be written again. What is written, behind
the same signature, reads as a message that differs in nothing but its raw content and in whether the
signature is good, and writing that one gives the same content once more. The content is the one that was
read if and only if its records were in canonical form. -/
theorem written_again_is_canonical
    (hdecode : decode scheme given data = .ok (envelope, lines)) :
    ∃ content records, envelope.message.encodeContent = .ok content ∧
      data = (Field.signature.record envelope.signature).layout ++ envelope.raw ∧
      (∀ given', ∃ again lines',
        decode scheme given' ((Field.signature.record envelope.signature).layout ++ content) =
          .ok (again, lines') ∧
        again = { envelope with raw := content, verified := again.verified } ∧
        again.message.encodeContent = .ok content) ∧
      Reader.readAll envelope.raw = .ok records ∧ (content = envelope.raw ↔ Canonical records) := by
  obtain ⟨signature, raw, records, hfits, hlayout, hstream, hgrammar, rfl⟩ :=
    stream_of_decode_eq_ok hdecode
  obtain ⟨kind, hkind⟩ := hgrammar.exists_kind
  have hkeys : (Message.ofRecords records).KeysFitMembers :=
    ⟨hgrammar.intKeys, hgrammar.nonces, hgrammar.pubKeys⟩
  have hvalues : ∀ value ∈ (Message.ofRecords records).values,
      value.length ≤ Record.maxValueSize := by
    intro value hmem
    rw [Message.values_eq _ kind] at hmem
    obtain ⟨field, hfield, hvalue⟩ := List.mem_flatMap.1 hmem
    exact hstream.fits _ (Message.record_mem_of_mem_contents hgrammar hfield hvalue)
  obtain ⟨content, hwritten, hcontent⟩ := Message.encodeContent_eq_ok hkind hkeys hvalues
  refine ⟨content, records, hcontent, hlayout, fun given' => ?_, Reader.readAll_eq_ok_iff.2 hstream,
    ?_⟩
  · obtain ⟨lines', hagain⟩ := decode_of_stream scheme given' hfits hwritten
      (Message.grammar_records hkind hkeys)
    rw [Message.envelope_ofRecords_records hkind hkeys] at hagain
    rw [hgrammar.ofRecords_eq hkind]
    exact ⟨_, lines', hagain, rfl, hcontent⟩
  · constructor
    · intro heq
      have hread := Reader.readAll_eq_ok_iff.2 hwritten
      have hsame : (Message.ofRecords records).records kind = records := by
        apply Except.ok.inj
        rw [← hread, heq]
        exact Reader.readAll_eq_ok_iff.2 hstream
      rw [← hsame]
      exact Message.canonical_records _ kind
    · intro hcanonical
      rw [Message.records_ofRecords hgrammar hcanonical hkind] at hwritten
      rw [hwritten.layout]
      exact hstream.layout.symm

/-- Padding and a source that comes twice are not written again. -/
theorem padding_is_not_written_again :
    let records : List Record :=
      [Field.padding.record [0, 0], Field.version.record [1], Field.category.record [2],
        Field.kind.record [0, 0x1c], Field.source.record [98], Field.source.record [97],
        Field.dest.record []]
    let raw := records.flatMap Record.layout
    ∃ envelope lines content,
      decode Ed25519.scheme none ((Field.signature.record []).layout ++ raw) = .ok (envelope, lines) ∧
        envelope.message.encodeContent = .ok content ∧ envelope.raw = raw ∧ content ≠ raw := by
  intro records raw
  have hfits : (Field.signature.record []).Fits := by decide
  have hstream : Record.Stream records raw := ⟨by decide, rfl⟩
  have hgrammar : Grammar records := (grammar_iff_foldlM_read [] []).2 ⟨_, rfl, by decide⟩
  obtain ⟨lines, hdecode⟩ := decode_of_stream Ed25519.scheme none hfits hstream hgrammar
  obtain ⟨content, read, hcontent, -, -, hread, hcanonical⟩ := written_again_is_canonical hdecode
  cases hread.symm.trans (Reader.readAll_eq_ok_iff.2 hstream)
  refine ⟨_, lines, content, hdecode, hcontent, rfl, fun heq => ?_⟩
  exact (hcanonical.1 heq).unpadded _ List.mem_cons_self rfl

end Envelope

end GroupChat.Greet
