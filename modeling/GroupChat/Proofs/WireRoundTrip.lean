import GroupChat.Greet.Wire
import GroupChat.Proofs.Base64
import GroupChat.Proofs.FirstRecord
import GroupChat.Proofs.GreetGrammar
import GroupChat.Proofs.VersionMarkers
import GroupChat.Signature.Ed25519

/-!
# Wire texts come back as what they were written for

A text is told to be of one category by its shape alone. Main statement: queries, errors, plain text and
content are taken for what they are, and content comes back unchanged unless its category cannot be read.
-/

namespace GroupChat

namespace Wire

open Greet

variable {content text : Bytes} {category : Category}

theorem categoryOf_of_lacks (hlacks : Record.Lacks Field.category.tag content) :
    categoryOf content = .ok .greet := by
  rw [categoryOf, Reader.firstTagged?_eq_none_iff.2 hlacks]
  rfl

theorem categoryOf_of_comesFirst {value : Bytes}
    (hfirst : (Field.category.record value).ComesFirst content) :
    categoryOf content = (fixedWidth 1 (Field.category.record value)).map fun number =>
      if number = Category.data.code then .data else .greet := by
  have hscan : Reader.firstTagged? Field.category.tag content =
      .ok (some (Field.category.record value)) := Reader.firstTagged?_eq_some_iff.2 ⟨rfl, hfirst⟩
  rw [categoryOf, hscan]
  cases hwidth : fixedWidth 1 (Field.category.record value) with
  | error error =>
      simp only [Except.mapError, bind, Except.bind, hwidth]
      rfl
  | ok number =>
      simp only [Except.mapError, bind, Except.bind, hwidth]
      exact (apply_ite Except.ok _ _ _).symm

theorem categoryOf_of_neither (hlacks : ¬Record.Lacks Field.category.tag content)
    (hfirst : ¬∃ value, (Field.category.record value).ComesFirst content) :
    ∃ cause, categoryOf content = .error (.read cause) := by
  rw [categoryOf]
  cases hscan : Reader.firstTagged? Field.category.tag content with
  | error cause => exact ⟨cause, rfl⟩
  | ok found =>
      cases found with
      | none => exact absurd (Reader.firstTagged?_eq_none_iff.1 hscan) hlacks
      | some record =>
          obtain ⟨htag, hrecord⟩ := Reader.firstTagged?_eq_some_iff.1 hscan
          rw [Field.eq_record_of_tag htag] at hrecord
          exact absurd ⟨record.value, hrecord⟩ hfirst

theorem eq_greet_or_data_of_categoryOf (hcategory : categoryOf content = .ok category) :
    category = .greet ∨ category = .data := by
  by_cases hlacks : Record.Lacks Field.category.tag content
  · rw [categoryOf_of_lacks hlacks] at hcategory
    exact Or.inl (Except.ok.inj hcategory).symm
  by_cases hfirst : ∃ value, (Field.category.record value).ComesFirst content
  · obtain ⟨value, hfirst⟩ := hfirst
    rw [categoryOf_of_comesFirst hfirst] at hcategory
    cases hwidth : fixedWidth 1 (Field.category.record value) with
    | error error =>
        rw [hwidth] at hcategory
        cases hcategory
    | ok number =>
        rw [hwidth] at hcategory
        by_cases hdata : number = Category.data.code
        · exact Or.inr ((Except.ok.inj hcategory).symm.trans (if_pos hdata))
        · exact Or.inl ((Except.ok.inj hcategory).symm.trans (if_neg hdata))
  · obtain ⟨cause, hcause⟩ := categoryOf_of_neither hlacks hfirst
    rw [hcause] at hcategory
    cases hcategory

theorem framed?_eq_some_iff {encoded : Bytes} :
    framed? text = some encoded ↔ text = colon :: (encoded ++ [fullStop]) := by
  cases text with
  | nil => exact iff_of_false nofun nofun
  | cons first rest =>
      simp only [framed?, Option.ite_none_right_eq_some, Option.some.injEq, List.cons.injEq, and_assoc,
        and_congr_right_iff]
      rintro -
      constructor
      · rintro ⟨hlast, rfl⟩
        obtain ⟨encoded, rfl⟩ := List.getLast?_eq_some_iff.1 hlast
        rw [List.dropLast_concat]
      · rintro rfl
        exact ⟨List.getLast?_concat, List.dropLast_concat⟩

section Marked

variable {message encoded decoded : Bytes}

theorem parse_of_errorMarker :
    parse (marker ++ (errorMarker ++ message)) = .ok (.error, Bytes.dropTrailing fullStop message) := by
  rw [parse, Bytes.dropLeading?_eq_some_iff.2 rfl]
  simp only [Bytes.dropLeading?_eq_some_iff.2 rfl]

theorem parse_of_frame :
    parse (marker ++ (colon :: (encoded ++ [fullStop]))) = (do
      let content ← (Base64.decode encoded).mapError .base64
      return (← (categoryOf content).mapError .content, content)) := by
  have herror : Bytes.dropLeading? errorMarker (colon :: (encoded ++ [fullStop])) = none := rfl
  rw [parse, Bytes.dropLeading?_eq_some_iff.2 rfl]
  simp only [herror, framed?_eq_some_iff.2 rfl]

theorem parse_of_decode_eq_error {cause : Base64.DecodeError}
    (hdecode : Base64.decode encoded = .error cause) :
    parse (marker ++ (colon :: (encoded ++ [fullStop]))) = .error (.base64 cause) := by
  rw [parse_of_frame, hdecode]
  rfl

theorem parse_of_decode_eq_ok (hdecode : Base64.decode encoded = .ok decoded) :
    parse (marker ++ (colon :: (encoded ++ [fullStop]))) =
      ((categoryOf decoded).mapError .content).map fun category => (category, decoded) := by
  rw [parse_of_frame, hdecode]
  change ((categoryOf decoded).mapError ParseError.content >>= fun category => Except.ok _) = _
  cases categoryOf decoded with
  | error error => rfl
  | ok category => rfl

theorem parse_of_neither (herror : ¬errorMarker <+: text) (hframe : framed? text = none) :
    parse (marker ++ text) =
      if namedVersion? text = some (Bytes.ofNat protocolVersion) then
        .ok (.query, Integer.bigEndian 1 protocolVersion)
      else .error .unknown := by
  have hnone : Bytes.dropLeading? errorMarker text = none := by
    rw [Option.eq_none_iff_forall_ne_some]
    intro message hmessage
    exact herror ⟨message, (Bytes.dropLeading?_eq_some_iff.1 hmessage).symm⟩
  rw [parse, Bytes.dropLeading?_eq_some_iff.2 rfl]
  simp only [hnone, hframe]

end Marked

theorem parse_encode (content : Bytes) :
    parse (encode content) =
      ((categoryOf content).mapError .content).map fun category => (category, content) := by
  have htext : encode content = marker ++ (colon :: (Base64.encode content ++ [fullStop])) := by
    rw [encode, List.append_assoc, List.append_assoc]
    rfl
  rw [htext, parse_of_decode_eq_ok (Base64.decode_encode content)]

end Wire

end GroupChat
