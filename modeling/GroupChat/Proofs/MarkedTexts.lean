import GroupChat.Proofs.WireRoundTrip

/-!
# What marked texts are taken for

Main statement: behind the marker of wire texts, what the text starts with tells an error, the frame around it
content and the leftmost version that it names a query, in this order. Text that is none of them is refused.
-/

namespace GroupChat

theorem Bytes.dropTrailing_eq_iff {byte : UInt8} {text content : Bytes} :
    dropTrailing byte text = content ↔
      text = content ++ [byte] ∨ text = content ∧ content.getLast? ≠ some byte := by
  unfold dropTrailing
  by_cases hlast : text.getLast? = some byte
  · obtain ⟨rest, rfl⟩ := List.getLast?_eq_some_iff.1 hlast
    rw [if_pos hlast, List.dropLast_concat, List.append_left_inj]
    refine (or_iff_left ?_).symm
    rintro ⟨rfl, hnot⟩
    exact hnot hlast
  · rw [if_neg hlast]
    constructor
    · rintro rfl
      exact Or.inr ⟨rfl, hlast⟩
    · rintro (rfl | ⟨rfl, -⟩)
      · exact absurd List.getLast?_concat hlast
      · rfl

namespace Wire

open Greet

variable {rest : Bytes}

theorem categories_of_parse_of_frame {encoded content : Bytes} {category : Category}
    (hparse : parse (marker ++ (colon :: (encoded ++ [fullStop]))) = .ok (category, content)) :
    category = .greet ∨ category = .data := by
  rw [parse_of_frame] at hparse
  obtain ⟨decoded, -, hrest⟩ := bind_eq_ok_iff.1 hparse
  obtain ⟨found, hfound, hresult⟩ := bind_eq_ok_iff.1 hrest
  cases hresult
  exact eq_greet_or_data_of_categoryOf (mapError_eq_ok_iff.1 hfound)

theorem parse_of_neither_ne_error {content : Bytes} (herror : ¬errorMarker <+: rest)
    (hframe : framed? rest = none) : parse (marker ++ rest) ≠ .ok (.error, content) := by
  rw [parse_of_neither herror hframe]
  split <;> nofun

/-- Only text that starts with the marker of errors is taken for one. -/
theorem errorMarker_of_parse {content : Bytes} (hparse : parse (marker ++ rest) = .ok (.error, content)) :
    errorMarker <+: rest := by
  by_contra herror
  cases hframe : framed? rest with
  | none => exact parse_of_neither_ne_error herror hframe hparse
  | some encoded =>
      obtain rfl := framed?_eq_some_iff.1 hframe
      simpa using categories_of_parse_of_frame hparse

theorem parse_eq_error_iff {content : Bytes} :
    parse (marker ++ rest) = .ok (.error, content) ↔
      rest = errorMarker ++ content ++ [fullStop] ∨
        rest = errorMarker ++ content ∧ content.getLast? ≠ some fullStop := by
  constructor
  · intro hparse
    obtain ⟨message, rfl⟩ := errorMarker_of_parse hparse
    rw [parse_of_errorMarker, Except.ok.injEq, Prod.mk.injEq, and_iff_right rfl,
      Bytes.dropTrailing_eq_iff] at hparse
    rwa [List.append_assoc, List.append_right_inj, List.append_right_inj]
  · have hdropped : ∀ message, Bytes.dropTrailing fullStop message = content →
        parse (marker ++ (errorMarker ++ message)) = .ok (.error, content) := by
      rintro message rfl
      exact parse_of_errorMarker
    rintro (rfl | ⟨rfl, hlast⟩)
    · rw [List.append_assoc]
      exact hdropped _ (Bytes.dropTrailing_eq_iff.2 (Or.inl rfl))
    · exact hdropped _ (Bytes.dropTrailing_eq_iff.2 (Or.inr ⟨rfl, hlast⟩))

/-- **Marked texts are told apart.** Behind the marker, a text is an error if and only if it starts as one,
and what it says loses a single full stop at its end. Text between a colon and a full stop is greet or data
content, or it is refused for what it encodes. Any other text is a query if the first version that it names
is that of this protocol, and is refused otherwise. The search for it finds the leftmost version, and none
only if no version is named anywhere. -/
theorem marked_texts_are_told_apart (rest : Bytes) :
    ((∃ content, parse (Bytes.ofString "?mpENC" ++ rest) = .ok (.error, content)) ↔
      Bytes.ofString " Error:" <+: rest) ∧
    (∀ content, parse (Bytes.ofString "?mpENC" ++ rest) = .ok (.error, content) ↔
      rest = Bytes.ofString " Error:" ++ content ++ [fullStop] ∨
        rest = Bytes.ofString " Error:" ++ content ∧ content.getLast? ≠ some fullStop) ∧
    (∀ encoded, rest = [colon] ++ encoded ++ [fullStop] →
      (∀ cause, Base64.decode encoded = .error cause →
        parse (Bytes.ofString "?mpENC" ++ rest) = .error (.base64 cause)) ∧
      (∀ content cause, Base64.decode encoded = .ok content → categoryOf content = .error cause →
        parse (Bytes.ofString "?mpENC" ++ rest) = .error (.content cause)) ∧
      ∀ content category, Base64.decode encoded = .ok content → categoryOf content = .ok category →
        parse (Bytes.ofString "?mpENC" ++ rest) = .ok (category, content) ∧
          (category = .greet ∨ category = .data)) ∧
    (¬Bytes.ofString " Error:" <+: rest → (∀ encoded, rest ≠ [colon] ++ encoded ++ [fullStop]) →
      (FirstVersion rest (Bytes.ofString "1") →
        parse (Bytes.ofString "?mpENC" ++ rest) = .ok (.query, [1])) ∧
      (¬FirstVersion rest (Bytes.ofString "1") →
        parse (Bytes.ofString "?mpENC" ++ rest) = .error .unknown)) ∧
    (∀ digits, namedVersion? rest = some digits ↔ FirstVersion rest digits) ∧
    (namedVersion? rest = none ↔ ∀ position digits, ¬NamesVersion rest position digits) := by
  refine ⟨⟨?_, ?_⟩, fun content => parse_eq_error_iff, ?_, ?_, fun digits => namedVersion?_eq_some_iff,
    namedVersion?_eq_none_iff⟩
  · rintro ⟨content, hparse⟩
    exact errorMarker_of_parse hparse
  · rintro ⟨message, rfl⟩
    exact ⟨_, parse_of_errorMarker⟩
  · rintro encoded rfl
    refine ⟨fun cause => parse_of_decode_eq_error, fun content cause hdecode hcategory => ?_,
      fun content category hdecode hcategory => ⟨?_, eq_greet_or_data_of_categoryOf hcategory⟩⟩
    · refine (parse_of_decode_eq_ok hdecode).trans ?_
      rw [hcategory]
      rfl
    · refine (parse_of_decode_eq_ok hdecode).trans ?_
      rw [hcategory]
      rfl
  · intro herror hframe
    have hnone : framed? rest = none :=
      Option.eq_none_iff_forall_ne_some.2 fun encoded hsome => hframe encoded (framed?_eq_some_iff.1 hsome)
    have hparse := parse_of_neither herror hnone
    constructor
    · intro hfirst
      exact hparse.trans (if_pos (namedVersion?_eq_some_iff.2 hfirst))
    · intro hfirst
      exact hparse.trans (if_neg fun hnamed => hfirst (namedVersion?_eq_some_iff.1 hnamed))

/-- Neither a letter with another one behind it nor digits that end at a letter hide the version that
follows. -/
theorem false_starts_hide_no_version :
    let rest := Bytes.ofString "vv2v1?v3?"
    (¬Bytes.ofString " Error:" <+: rest ∧ ∀ encoded, rest ≠ [colon] ++ encoded ++ [fullStop]) ∧
      FirstVersion rest (Bytes.ofString "1") ∧
      parse (Bytes.ofString "?mpENC" ++ rest) = .ok (.query, [1]) := by
  intro rest
  have herror : ¬Bytes.ofString " Error:" <+: rest := by decide
  have hframe : ∀ encoded, rest ≠ [colon] ++ encoded ++ [fullStop] := by
    intro encoded heq
    have hhead : rest.head? = some colon := by
      rw [heq]
      rfl
    exact absurd hhead (by decide)
  have hfirst : FirstVersion rest (Bytes.ofString "1") := by
    have hbefore : ∀ earlier < 3,
        ((rest.drop (earlier + 1)).dropWhile isDigit).head? ≠ some questionMark := by decide
    refine ⟨3, ⟨⟨by decide, all_isDigit_iff.1 rfl⟩, by decide⟩, fun earlier hearlier other hnames => ?_⟩
    obtain ⟨-, -, -, hmark⟩ := namesVersion_iff.1 hnames
    exact hbefore earlier hearlier hmark
  obtain ⟨-, -, -, hquery, -⟩ := marked_texts_are_told_apart rest
  exact ⟨⟨herror, hframe⟩, hfirst, (hquery herror hframe).1 hfirst⟩

end Wire

end GroupChat
