import GroupChat.Bytes.Base64
import GroupChat.Proofs.Results
import Mathlib.Data.List.TakeWhile

/-!
# Base64 text is read as the bytes it was written for

Writing goes by groups of three bytes and reading by groups of four digits. Main statements: a block coder
that passes over characters at the ends of a text is found out, so that reading comes down to the digits
(`decodeWith_eq_readDigits`), and an encoded byte string decodes to itself.
-/

namespace GroupChat.Base64

variable {text data values : Bytes}

section Blocks

/-- Reading by the digits alone: every character has to be a digit or padding. -/
def readDigits (text : Bytes) : Except DecodeError Bytes :=
  if text.length % 4 ≠ 0 then .error .partialGroup
  else match text.mapM digitValue? with
    | none => .error .malformed
    | some values =>
        let bytes := joinGroups [] values
        .ok (bytes.take (bytes.length - padCount text))

/-- What a block coder may do to a text: it passes over blanks in front and trailers behind, and what it
leaves in between has to be whole groups of digits. -/
def BlockCoder.Decodes (coder : BlockCoder) (text : Bytes) : Prop :=
  ∃ front digits back, text = front ++ digits ++ back ∧ (∀ character ∈ front, isBlank character = true) ∧
    (∀ character ∈ back, isTrailer character = true) ∧ coder.decode text = decodeGroups digits

theorem length_joinGroups (reversed values : Bytes) :
    (joinGroups reversed values).length = reversed.length + values.length / 4 * 3 := by
  fun_induction joinGroups reversed values with
  | case1 reversed first second third fourth rest ih =>
      rw [ih]
      simp only [joinGroup, List.length_append, List.length_reverse, List.length_cons, List.length_nil]
      omega
  | case2 values reversed hshort =>
      have hlength : values.length < 4 := by
        match values, hshort with
        | [], _ | [_], _ | [_, _], _ | [_, _, _], _ => simp
        | first :: second :: third :: fourth :: rest, hshort =>
            exact absurd rfl (hshort first second third fourth rest)
      rw [List.length_reverse, Nat.div_eq_of_lt hlength, Nat.zero_mul, Nat.add_zero]

theorem digitValue?_of_isTrailer {character : UInt8} (htrailer : isTrailer character = true) :
    digitValue? character = none := by
  have hcases : (character = 32 ∨ character = 9) ∨ character = 10 ∨ character = 13 ∨ character = 45 := by
    simpa [isTrailer, isBlank] using htrailer
  rcases hcases with (rfl | rfl) | rfl | rfl | rfl <;> rfl

theorem isTrailer_of_isBlank {character : UInt8} (hblank : isBlank character = true) :
    isTrailer character = true := by
  rw [isTrailer, hblank, Bool.true_or]

/-- What the coder passes over is missing from the size of what it gives, because nothing of it is a
digit. So it has to be nothing if the text is to be read. -/
theorem decodeWith_eq_readDigits {coder : BlockCoder} (hdecodes : coder.Decodes text) :
    decodeWith coder text = readDigits text := by
  by_cases hempty : text = []
  · subst hempty
    rfl
  rw [decodeWith, readDigits, if_neg (mt List.isEmpty_iff.1 hempty)]
  by_cases hlength : text.length % 4 ≠ 0
  · rw [if_pos hlength, if_pos hlength]
  rw [if_neg hlength, if_neg hlength]
  rw [ne_eq, not_not] at hlength
  obtain ⟨front, digits, back, htext, hfront, hback, hcoder⟩ := hdecodes
  rw [hcoder]
  by_cases hall : front = [] ∧ back = []
  · obtain ⟨rfl, rfl⟩ := hall
    obtain rfl : text = digits := by rw [htext, List.nil_append, List.append_nil]
    rw [decodeGroups, if_pos hlength]
    cases hvalues : text.mapM digitValue? with
    | none => rfl
    | some values =>
        have hsize : (joinGroups [] values).length = text.length / 4 * 3 := by
          rw [length_joinGroups, length_of_mapM_eq_some hvalues, List.length_nil, Nat.zero_add]
        simp only [Option.map_some, if_pos hsize]
  · have hpassed : ∃ character ∈ text, isTrailer character = true := by
      rw [htext]
      cases front with
      | cons character front =>
          exact ⟨character, by simp, isTrailer_of_isBlank (hfront character List.mem_cons_self)⟩
      | nil =>
          obtain ⟨character, hmem⟩ := List.exists_mem_of_ne_nil back fun hnil => hall ⟨rfl, hnil⟩
          exact ⟨character, List.mem_append_right _ hmem, hback character hmem⟩
    have hnone : text.mapM digitValue? = none := by
      rw [Option.eq_none_iff_forall_ne_some]
      intro values hvalues
      obtain ⟨character, hmem, htrailer⟩ := hpassed
      obtain ⟨value, hvalue⟩ := exists_mapM_eq_some_iff.1 ⟨values, hvalues⟩ character hmem
      rw [digitValue?_of_isTrailer htrailer] at hvalue
      cases hvalue
    rw [hnone]
    have hlonger : digits.length < text.length := by
      have hsum := congrArg List.length htext
      rw [List.length_append, List.length_append] at hsum
      have hpositive : front.length ≠ 0 ∨ back.length ≠ 0 := by
        rw [ne_eq, ne_eq, List.length_eq_zero_iff, List.length_eq_zero_iff]
        exact not_and_or.1 hall
      omega
    by_cases hgroups : digits.length % 4 = 0
    · rw [decodeGroups, if_pos hgroups]
      cases hvalues : digits.mapM digitValue? with
      | none => rfl
      | some values =>
          have hsize : (joinGroups [] values).length ≠ text.length / 4 * 3 := by
            rw [length_joinGroups, length_of_mapM_eq_some hvalues, List.length_nil]
            omega
          simp only [Option.map_some, if_neg hsize]
    · rw [decodeGroups, if_neg hgroups]

theorem exists_trimReversed (reversed : Bytes) :
    ∃ dropped, reversed = dropped ++ trimReversed reversed ∧
      ∀ character ∈ dropped, isTrailer character = true := by
  induction reversed with
  | nil => exact ⟨[], rfl, nofun⟩
  | cons last previous ih =>
      rw [trimReversed]
      split
      · rename_i htrim
        obtain ⟨dropped, hprevious, hdropped⟩ := ih
        exact ⟨last :: dropped, congrArg (last :: ·) hprevious,
          List.forall_mem_cons.2 ⟨htrim.1, hdropped⟩⟩
      · exact ⟨[], rfl, nofun⟩

theorem BlockCoder.standard_decodes (text : Bytes) : standard.Decodes text := by
  obtain ⟨dropped, hreversed, hdropped⟩ := exists_trimReversed (text.dropWhile isBlank).reverse
  refine ⟨text.takeWhile isBlank, digitsOf text, dropped.reverse, ?_, fun _ => List.mem_takeWhile_imp,
    fun character hmem => hdropped character (List.mem_reverse.1 hmem), rfl⟩
  rw [digitsOf, List.append_assoc, ← List.reverse_append, ← hreversed, List.reverse_reverse,
    List.takeWhile_append_dropWhile]

theorem decode_eq_readDigits (text : Bytes) : decode text = readDigits text :=
  decodeWith_eq_readDigits (BlockCoder.standard_decodes text)

theorem encode_eq (data : Bytes) : encode data = encodeOnto [] data := by
  cases data with
  | nil => rfl
  | cons byte data => rfl

end Blocks

theorem joinGroup_splitGroup (first second third : UInt8) :
    joinGroup (first / 4) (first % 4 * 16 + second / 16) (second % 16 * 4 + third / 64) (third % 64) =
      [first, second, third] := by
  simp only [joinGroup, List.cons.injEq, and_true]
  refine ⟨?_, ?_, ?_⟩
  all_goals
    apply UInt8.toNat.inj
    have hfirst := first.toNat_lt
    have hsecond := second.toNat_lt
    have hthird := third.toNat_lt
    simp only [UInt8.toNat_add, UInt8.toNat_mul, UInt8.toNat_div, UInt8.toNat_mod, UInt8.reduceToNat]
    omega

theorem length_splitGroup (first second third : UInt8) :
    (splitGroup first second third).length = 4 :=
  rfl

theorem lt_of_mem_splitGroup (first second third : UInt8) :
    ∀ value ∈ splitGroup first second third, value < 64 := by
  have hfirst := first.toNat_lt
  have hsecond := second.toNat_lt
  have hthird := third.toNat_lt
  simp only [splitGroup, List.forall_mem_cons, UInt8.lt_iff_toNat_lt, UInt8.toNat_add, UInt8.toNat_mul,
    UInt8.toNat_div, UInt8.toNat_mod, UInt8.reduceToNat]
  exact ⟨by omega, by omega, by omega, by omega, nofun⟩

theorem digitValue?_digit {value : UInt8} (hvalue : value < 64) :
    digitValue? (digit value) = some value := by
  have hall : ∀ value : Fin 64,
      digitValue? (digit (UInt8.ofNat value)) = some (UInt8.ofNat value) := by decide
  have hread := hall ⟨value.toNat, hvalue⟩
  rwa [UInt8.ofNat_toNat] at hread

theorem digit_ne_padding (value : UInt8) : digit value ≠ padding := by
  grind [digit, padding]

theorem mapM_digitValue?_map_digit (hvalues : ∀ value ∈ values, value < 64) :
    (values.map digit).mapM digitValue? = some values :=
  mapM_map_eq_some fun value hmem => digitValue?_digit (hvalues value hmem)

theorem mapM_digitValue?_padding (count : Nat) :
    (List.replicate count padding).mapM digitValue? = some (List.replicate count 0) := by
  induction count with
  | zero => rfl
  | succ count ih =>
      rw [List.replicate_succ, List.mapM_cons, ih]
      rfl

theorem encodeOnto_append (reversed earlier data : Bytes) :
    encodeOnto (reversed ++ earlier) data = earlier.reverse ++ encodeOnto reversed data := by
  fun_induction encodeOnto reversed data with
  | case1 reversed first second third rest ih =>
      rw [encodeOnto, ← List.append_assoc, ih]
  | case2 reversed first second =>
      simp only [encodeOnto, List.reverse_append, List.append_assoc]
  | case3 reversed first =>
      simp only [encodeOnto, List.reverse_append, List.append_assoc]
  | case4 reversed => simp only [encodeOnto, List.reverse_append]

theorem encode_group_append (first second third : UInt8) (rest : Bytes) :
    encode (first :: second :: third :: rest) =
      (splitGroup first second third).map digit ++ encode rest := by
  have happend := encodeOnto_append [] ((splitGroup first second third).map digit).reverse rest
  rw [List.reverse_reverse] at happend
  rw [encode_eq, encode_eq, encodeOnto, List.append_nil]
  exact happend

theorem joinGroups_append (reversed earlier values : Bytes) :
    joinGroups (reversed ++ earlier) values = earlier.reverse ++ joinGroups reversed values := by
  fun_induction joinGroups reversed values with
  | case1 reversed first second third fourth rest ih =>
      rw [joinGroups, ← List.append_assoc, ih]
  | case2 reversed values hshort =>
      rw [joinGroups, List.reverse_append]
      exact hshort

theorem joinGroups_splitGroup_append (first second third : UInt8) (values : Bytes) :
    joinGroups [] (splitGroup first second third ++ values) =
      [first, second, third] ++ joinGroups [] values := by
  have happend := joinGroups_append [] [first, second, third].reverse values
  rw [List.reverse_reverse] at happend
  rw [splitGroup, List.cons_append, List.cons_append, List.cons_append, List.cons_append,
    List.nil_append, joinGroups, joinGroup_splitGroup, List.append_nil]
  exact happend

theorem padCount_append {front : Bytes} (htext : 2 ≤ text.length) :
    padCount (front ++ text) = padCount text := by
  rw [padCount, padCount, List.reverse_append]
  rw [← List.length_reverse] at htext
  match text.reverse, htext with
  | last :: previous :: earlier, _ => rfl

theorem padCount_splitGroup (first second third : UInt8) :
    padCount ((splitGroup first second third).map digit) = 0 :=
  if_neg (digit_ne_padding (third % 64))

/-- The digits of the text stand for the data, with a zero byte behind it for each that is padded. -/
structure Spells (text data : Bytes) : Prop where
  length : text.length % 4 = 0
  values : ∃ values, text.mapM digitValue? = some values ∧
    joinGroups [] values = data ++ List.replicate (padCount text) 0

theorem Spells.decode (hspells : Spells text data) : decode text = .ok data := by
  obtain ⟨hlength, values, hvalues, hjoin⟩ := hspells
  rw [decode_eq_readDigits, readDigits, if_neg (not_not_intro hlength), hvalues]
  simp only [hjoin, List.length_append, List.length_replicate, Nat.add_sub_cancel, List.take_left]

theorem Spells.group_append (first second third : UInt8) (hspells : Spells text data) :
    Spells ((splitGroup first second third).map digit ++ text) (first :: second :: third :: data) := by
  obtain ⟨hlength, values, hvalues, hjoin⟩ := hspells
  have hfront := mapM_digitValue?_map_digit (lt_of_mem_splitGroup first second third)
  -- Padding counts in the last two places only, and a group of three bytes has none there.
  have hpad : padCount ((splitGroup first second third).map digit ++ text) = padCount text := by
    cases text with
    | nil => rw [List.append_nil, padCount_splitGroup]; rfl
    | cons character rest =>
        rw [List.length_cons] at hlength
        exact padCount_append (by rw [List.length_cons]; omega)
  constructor
  · rw [List.length_append, List.length_map, length_splitGroup, Nat.add_mod_left, hlength]
  · refine ⟨splitGroup first second third ++ values, ?_, ?_⟩
    · rw [List.mapM_append, hfront, hvalues]
      rfl
    · rw [joinGroups_splitGroup_append, hjoin, hpad]
      rfl

/-- The last group, of which only some digits are written. -/
theorem spells_of_padded {front : Bytes} {first second third : UInt8} (count : Nat)
    (hfront : splitGroup first second third = front ++ List.replicate count 0)
    (hdata : [first, second, third] = data ++ List.replicate count 0)
    (hpad : padCount (front.map digit ++ List.replicate count padding) = count) :
    Spells (front.map digit ++ List.replicate count padding) data := by
  have hlt : ∀ value ∈ front, value < 64 := fun value hmem =>
    lt_of_mem_splitGroup first second third value (hfront ▸ List.mem_append_left _ hmem)
  constructor
  · have hlength := congrArg List.length hfront
    rw [length_splitGroup, List.length_append, List.length_replicate] at hlength
    rw [List.length_append, List.length_map, List.length_replicate, ← hlength]
  · refine ⟨splitGroup first second third, ?_, ?_⟩
    · rw [List.mapM_append, mapM_digitValue?_map_digit hlt, mapM_digitValue?_padding, hfront]
      rfl
    · rw [hpad, ← hdata, ← List.append_nil (splitGroup first second third),
        joinGroups_splitGroup_append]
      rfl

/-- By groups of three bytes, as the text is written. -/
theorem spells_encode : ∀ data : Bytes, Spells (encode data) data
  | first :: second :: third :: rest => by
      rw [encode_group_append]
      exact (spells_encode rest).group_append first second third
  | [first, second] => by
      have hpad : padCount (encode [first, second]) = 1 := by
        simp [encode_eq, encodeOnto, splitGroup, padCount, digit_ne_padding]
      exact spells_of_padded 1 rfl rfl hpad
  | [_] => spells_of_padded 2 rfl rfl rfl
  | [] => ⟨rfl, [], rfl, rfl⟩

theorem decode_encode (data : Bytes) : decode (encode data) = .ok data := (spells_encode data).decode

end GroupChat.Base64
