import GroupChat.Proofs.Base64

/-!
# Which texts are base64, and which of them are written

Any text of whole groups is read if it holds digits and padding only, wherever the padding stands. Main
statement: this holds with any block coder that codes as is usual, every byte string comes back from the
text that is written for it, and the texts that are written are those with no more padding than is needed
and no bits lost under it.
-/

namespace GroupChat.Base64

variable {text data values digits rest : Bytes} {character value : UInt8}

section Digits

/-- The characters that stand for digits, in the order of their values. -/
def alphabet : Bytes :=
  Bytes.ofString "ABCDEFGHIJKLMNOPQRSTUVWXYZabcdefghijklmnopqrstuvwxyz0123456789+/"

theorem alphabet_eq : alphabet = (List.range 64).map fun value => digit (UInt8.ofNat value) := by
  decide

theorem mem_alphabet_iff : character ∈ alphabet ↔ ∃ value < 64, digit value = character := by
  rw [alphabet_eq, List.mem_map]
  constructor
  · rintro ⟨number, hnumber, rfl⟩
    have hlt := List.mem_range.1 hnumber
    refine ⟨UInt8.ofNat number, ?_, rfl⟩
    rw [UInt8.lt_iff_toNat_lt, UInt8.toNat_ofNat']
    exact (Nat.mod_le ..).trans_lt hlt
  · rintro ⟨value, hlt, rfl⟩
    refine ⟨value.toNat, List.mem_range.2 (UInt8.lt_iff_toNat_lt.1 hlt), ?_⟩
    rw [UInt8.ofNat_toNat]

/-- Padding apart, a character is the digit of its value. -/
theorem digit_of_digitValue? (hvalue : digitValue? character = some value)
    (hpadding : character ≠ padding) : value < 64 ∧ digit value = character :=
  Bytes.forall_byte
    (motive := fun character => character ≠ padding → ∀ value ∈ digitValue? character,
      value < 64 ∧ digit value = character)
    (by decide +kernel) character hpadding value hvalue

theorem exists_digitValue?_iff :
    (∃ value, digitValue? character = some value) ↔ character ∈ alphabet ∨ character = padding := by
  rw [mem_alphabet_iff]
  constructor
  · rintro ⟨value, hvalue⟩
    by_cases hpadding : character = padding
    · exact Or.inr hpadding
    · exact Or.inl ⟨value, digit_of_digitValue? hvalue hpadding⟩
  · rintro (⟨value, hlt, rfl⟩ | rfl)
    · exact ⟨value, digitValue?_digit hlt⟩
    · exact ⟨0, rfl⟩

theorem splitGroup_joinGroup {first second third fourth : UInt8} (hfirst : first < 64)
    (hsecond : second < 64) (hthird : third < 64) (hfourth : fourth < 64) :
    splitGroup (first * 4 + second / 16) (second * 16 + third / 4) (third * 64 + fourth) =
      [first, second, third, fourth] := by
  rw [UInt8.lt_iff_toNat_lt] at hfirst hsecond hthird hfourth
  simp only [splitGroup, List.cons.injEq, and_true]
  refine ⟨?_, ?_, ?_, ?_⟩
  all_goals
    apply UInt8.toNat.inj
    simp only [UInt8.toNat_add, UInt8.toNat_mul, UInt8.toNat_div, UInt8.toNat_mod, UInt8.reduceToNat] at *
    omega

end Digits

section Sizes

/-- By groups of three bytes, of which the last may be shorter. -/
theorem length_encode : ∀ data : Bytes, (encode data).length = 4 * ((data.length + 2) / 3)
  | first :: second :: third :: rest => by
      have hrest := length_encode rest
      rw [encode_group_append, List.length_append, List.length_map, length_splitGroup, hrest]
      simp only [List.length_cons]
      omega
  | [first, second] => by simp [encode_eq, encodeOnto, splitGroup]
  | [first] => by simp [encode_eq, encodeOnto, splitGroup]
  | [] => rfl

/-- How many places at the end are padded, of which only two count. -/
def lostPlaces (text : Bytes) : Nat :=
  if [padding, padding] <:+ text then 2 else if [padding] <:+ text then 1 else 0

theorem padCount_eq_lostPlaces (htext : text.length ≠ 1) : padCount text = lostPlaces text := by
  rw [← List.length_reverse] at htext
  match hreverse : text.reverse, htext with
  | [], _ =>
      rw [List.reverse_eq_nil_iff.1 hreverse]
      rfl
  | last :: previous :: earlier, _ =>
      have hboth : [padding, padding] <:+ text ↔ last = padding ∧ previous = padding := by
        rw [← List.reverse_prefix, hreverse]
        simp [List.cons_prefix_cons, eq_comm]
      have hlast : [padding] <:+ text ↔ last = padding := by
        rw [← List.reverse_prefix, hreverse]
        simp [List.cons_prefix_cons, eq_comm]
      rw [padCount, lostPlaces, hreverse]
      by_cases hpadding : last = padding
      · by_cases hprevious : previous = padding
        · rw [if_pos (hboth.2 ⟨hpadding, hprevious⟩)]
          exact (if_pos hpadding).trans (if_pos hprevious)
        · rw [if_neg fun hsuffix => hprevious (hboth.1 hsuffix).2, if_pos (hlast.2 hpadding)]
          exact (if_pos hpadding).trans (if_neg hprevious)
      · rw [if_neg fun hsuffix => hpadding (hboth.1 hsuffix).1, if_neg (mt hlast.1 hpadding)]
        exact if_neg hpadding

theorem lostPlaces_le (text : Bytes) : lostPlaces text ≤ text.length := by
  rw [lostPlaces]
  split_ifs with hboth hlast
  · exact hboth.length_le
  · exact hlast.length_le
  · exact Nat.zero_le _

theorem lostPlaces_le_two (text : Bytes) : lostPlaces text ≤ 2 := by
  rw [lostPlaces]
  split_ifs <;> omega

theorem decode_of_mapM {values : Bytes} (hlength : text.length % 4 = 0)
    (hvalues : text.mapM digitValue? = some values) :
    decode text =
      .ok ((joinGroups [] values).take ((joinGroups [] values).length - padCount text)) := by
  rw [decode_eq_readDigits, readDigits, if_neg (not_not_intro hlength), hvalues]

theorem exists_decode_eq_ok_iff :
    (∃ data, decode text = .ok data) ↔
      text.length % 4 = 0 ∧ ∀ character ∈ text, character ∈ alphabet ∨ character = padding := by
  simp only [← exists_digitValue?_iff, ← exists_mapM_eq_some_iff]
  constructor
  · rintro ⟨data, hdecode⟩
    rw [decode_eq_readDigits, readDigits] at hdecode
    by_cases hlength : text.length % 4 = 0
    · rw [if_neg (not_not_intro hlength)] at hdecode
      cases hvalues : text.mapM digitValue? with
      | none =>
          rw [hvalues] at hdecode
          cases hdecode
      | some values => exact ⟨hlength, values, rfl⟩
    · rw [if_pos hlength] at hdecode
      cases hdecode
  · rintro ⟨hlength, values, hvalues⟩
    exact ⟨_, decode_of_mapM hlength hvalues⟩

theorem decode_of_not_digit (hlength : text.length % 4 = 0)
    (hother : ∃ character ∈ text, character ∉ alphabet ∧ character ≠ padding) :
    decode text = .error .malformed := by
  obtain ⟨character, hmem, hnot⟩ := hother
  have hnone : text.mapM digitValue? = none := by
    rw [Option.eq_none_iff_forall_ne_some]
    intro values hvalues
    have hdigit := exists_mapM_eq_some_iff.1 ⟨values, hvalues⟩ character hmem
    exact not_or.2 hnot (exists_digitValue?_iff.1 hdigit)
  rw [decode_eq_readDigits, readDigits, if_neg (not_not_intro hlength), hnone]

/-- Three bytes for every four characters, less one for each of the last two places that is padded. -/
theorem length_of_decode_eq_ok (hdecode : decode text = .ok data) :
    data.length + lostPlaces text = 3 * (text.length / 4) := by
  obtain ⟨hlength, hcharacters⟩ := exists_decode_eq_ok_iff.1 ⟨data, hdecode⟩
  simp only [← exists_digitValue?_iff, ← exists_mapM_eq_some_iff] at hcharacters
  obtain ⟨values, hvalues⟩ := hcharacters
  have hjoined := length_joinGroups [] values
  have hlost := lostPlaces_le text
  have htwo := lostPlaces_le_two text
  rw [List.length_nil, length_of_mapM_eq_some hvalues] at hjoined
  rw [decode_of_mapM hlength hvalues, padCount_eq_lostPlaces (by omega)] at hdecode
  rw [← Except.ok.inj hdecode, List.length_take]
  omega

end Sizes

section Canonical

/-- Padding stands at the end only and in two places at most, and the bits that are lost under it, two for
each place, are zero. -/
def Canonical (text : Bytes) : Prop :=
  ∃ digits count, text = digits ++ List.replicate count padding ∧ padding ∉ digits ∧ count ≤ 2 ∧
    ∀ character value, digits.getLast? = some character → digitValue? character = some value →
      value.toNat % Nat.pow 4 count = 0

/-- Where the digits end and the padding begins is not open. -/
theorem canonical_append_replicate_iff {count : Nat} (hdigits : padding ∉ digits) :
    Canonical (digits ++ List.replicate count padding) ↔
      count ≤ 2 ∧ ∀ character value, digits.getLast? = some character →
        digitValue? character = some value → value.toNat % Nat.pow 4 count = 0 := by
  have hfront : ∀ (front : Bytes) (places : Nat), padding ∉ front →
      (front ++ List.replicate places padding).takeWhile (· != padding) = front := by
    intro front places hfront
    have hall : ∀ character ∈ front, (character != padding) = true := fun character hmem =>
      bne_iff_ne.2 fun heq => hfront (heq ▸ hmem)
    rw [List.takeWhile_append_of_pos hall]
    cases places <;> simp [List.replicate_succ]
  constructor
  · rintro ⟨others, places, htext, hothers, hplaces, hbits⟩
    have hsame := congrArg (List.takeWhile (· != padding)) htext
    rw [hfront _ _ hdigits, hfront _ _ hothers] at hsame
    subst hsame
    have hlength := congrArg List.length htext
    rw [List.length_append, List.length_append, List.length_replicate, List.length_replicate] at hlength
    obtain rfl : count = places := by omega
    exact ⟨hplaces, hbits⟩
  · rintro ⟨hcount, hbits⟩
    exact ⟨digits, count, rfl, hdigits, hcount, hbits⟩

theorem canonical_of_not_mem (hpadding : padding ∉ text) : Canonical text :=
  ⟨text, 0, (List.append_nil _).symm, hpadding, Nat.zero_le _, fun _ _ _ _ => Nat.mod_one _⟩

theorem canonical_nil : Canonical [] := canonical_of_not_mem List.not_mem_nil

/-- Whole groups of digits in front do not matter. -/
theorem canonical_group_append_iff {group : Bytes} (hgroup : padding ∉ group)
    (hrest : rest.length % 4 = 0) : Canonical (group ++ rest) ↔ Canonical rest := by
  constructor
  · rintro ⟨digits, count, htext, hdigits, hcount, hbits⟩
    rcases List.append_eq_append_iff.1 htext with ⟨later, rfl, rfl⟩ | ⟨later, rfl, hpadded⟩
    · refine ⟨later, count, rfl, fun hmem => hdigits (List.mem_append_right _ hmem), hcount,
        fun character value hlast => hbits character value ?_⟩
      rw [List.getLast?_append, hlast, Option.some_or]
    · have hnil : later = [] := by
        refine List.eq_nil_iff_forall_not_mem.2 fun character hmem => hgroup ?_
        have heq : character = padding := by
          have hmem' : character ∈ List.replicate count padding := by
            rw [hpadded]
            exact List.mem_append_left _ hmem
          exact List.eq_of_mem_replicate hmem'
        exact List.mem_append_right _ (heq ▸ hmem)
      subst hnil
      rw [List.nil_append] at hpadded
      rw [← hpadded, List.length_replicate] at hrest
      obtain rfl : count = 0 := by omega
      rw [← hpadded]
      exact canonical_nil
  · rintro ⟨digits, count, rfl, hdigits, hcount, hbits⟩
    refine ⟨group ++ digits, count, (List.append_assoc ..).symm, ?_, hcount,
      fun character value hlast hvalue => ?_⟩
    · rw [List.mem_append]
      exact not_or.2 ⟨hgroup, hdigits⟩
    · cases hdigitsLast : digits.getLast? with
      | some last =>
          rw [List.getLast?_append, hdigitsLast, Option.some_or] at hlast
          exact hbits character value (hdigitsLast.trans hlast) hvalue
      | none =>
          rw [List.getLast?_eq_none_iff] at hdigitsLast
          subst hdigitsLast
          rw [List.nil_append, List.length_replicate] at hrest
          obtain rfl : count = 0 := by omega
          exact Nat.mod_one _

theorem padding_not_mem_map_digit (values : Bytes) : padding ∉ values.map digit := by
  intro hmem
  obtain ⟨value, -, hvalue⟩ := List.mem_map.1 hmem
  exact digit_ne_padding value hvalue

/-- A last group of which some places are padded. -/
theorem canonical_map_digit_append (values : Bytes) {last : UInt8} (count : Nat) (hcount : count ≤ 2)
    (hlast : last < 64) (hbits : last.toNat % Nat.pow 4 count = 0) :
    Canonical ((values ++ [last]).map digit ++ List.replicate count padding) := by
  refine ⟨_, count, rfl, padding_not_mem_map_digit _, hcount, fun character value hcharacter hvalue => ?_⟩
  rw [List.map_append, List.map_singleton, List.getLast?_concat, Option.some.injEq] at hcharacter
  rw [← hcharacter, digitValue?_digit hlast, Option.some.injEq] at hvalue
  rwa [← hvalue]

theorem canonical_encode : ∀ data : Bytes, Canonical (encode data)
  | first :: second :: third :: rest => by
      have hrest : (encode rest).length % 4 = 0 := (spells_encode rest).length
      rw [encode_group_append, canonical_group_append_iff (padding_not_mem_map_digit _) hrest]
      exact canonical_encode rest
  | [first, second] => by
      have hlast : second % 16 * 4 + 0 / 64 < 64 :=
        lt_of_mem_splitGroup first second 0 _ (by simp [splitGroup])
      have hbits : (second % 16 * 4 + 0 / 64).toNat % 4 = 0 := by
        simp only [UInt8.toNat_add, UInt8.toNat_mul, UInt8.toNat_div, UInt8.toNat_mod, UInt8.reduceToNat]
        omega
      exact canonical_map_digit_append [first / 4, first % 4 * 16 + second / 16] 1 (by omega) hlast hbits
  | [first] => by
      have hlast : first % 4 * 16 + 0 / 16 < 64 :=
        lt_of_mem_splitGroup first 0 0 _ (by simp [splitGroup])
      have hbits : (first % 4 * 16 + 0 / 16).toNat % 16 = 0 := by
        simp only [UInt8.toNat_add, UInt8.toNat_mul, UInt8.toNat_div, UInt8.toNat_mod, UInt8.reduceToNat]
        omega
      exact canonical_map_digit_append [first / 4] 2 (by omega) hlast hbits
  | [] => canonical_nil

theorem exists_map_digit_eq (hpadding : padding ∉ digits)
    (hdigits : ∀ character ∈ digits, ∃ value, digitValue? character = some value) :
    ∃ values : Bytes, (∀ value ∈ values, value < 64) ∧ values.map digit = digits := by
  induction digits with
  | nil => exact ⟨[], nofun, rfl⟩
  | cons character digits ih =>
      rw [List.mem_cons, not_or] at hpadding
      obtain ⟨⟨value, hvalue⟩, hdigits⟩ := List.forall_mem_cons.1 hdigits
      obtain ⟨values, hvalues, hmap⟩ := ih hpadding.2 hdigits
      obtain ⟨hlt, hdigit⟩ := digit_of_digitValue? hvalue (Ne.symm hpadding.1)
      exact ⟨value :: values, List.forall_mem_cons.2 ⟨hlt, hvalues⟩, by rw [List.map_cons, hdigit, hmap]⟩

theorem exists_splitGroup_eq (hlength : values.length = 4) (hvalues : ∀ value ∈ values, value < 64) :
    ∃ first second third, splitGroup first second third = values := by
  match values, hlength with
  | [first, second, third, fourth], _ =>
      simp only [List.forall_mem_cons] at hvalues
      obtain ⟨hfirst, hsecond, hthird, hfourth, -⟩ := hvalues
      exact ⟨_, _, _, splitGroup_joinGroup hfirst hsecond hthird hfourth⟩

/-- The last group is written for one byte less than it has digits. -/
theorem exists_encode_last {count : Nat} (hlength : values.length + count = 4) (hcount : count ≤ 2)
    (hvalues : ∀ value ∈ values, value < 64)
    (hbits : ∀ value, values.getLast? = some value → value.toNat % Nat.pow 4 count = 0) :
    ∃ data, encode data = values.map digit ++ List.replicate count padding := by
  have hzeroLt : (0 : UInt8) < 64 := by decide
  match count, values, hlength with
  | 0, values, hlength =>
      obtain ⟨first, second, third, hsplit⟩ := exists_splitGroup_eq hlength hvalues
      refine ⟨[first, second, third], ?_⟩
      rw [encode_group_append, hsplit]
      rfl
  | 1, [first, second, third], _ =>
      simp only [List.forall_mem_cons] at hvalues
      obtain ⟨hfirst, hsecond, hthird, -⟩ := hvalues
      have hsplit := splitGroup_joinGroup hfirst hsecond hthird hzeroLt
      have hlost : third.toNat % 4 = 0 := hbits third rfl
      have hzero : third * 64 + 0 = 0 := by
        apply UInt8.toNat.inj
        simp only [UInt8.toNat_add, UInt8.toNat_mul, UInt8.reduceToNat]
        omega
      rw [hzero] at hsplit
      refine ⟨[first * 4 + second / 16, second * 16 + third / 4], ?_⟩
      rw [encode_eq, encodeOnto, hsplit]
      rfl
  | 2, [first, second], _ =>
      simp only [List.forall_mem_cons] at hvalues
      obtain ⟨hfirst, hsecond, -⟩ := hvalues
      have hsplit := splitGroup_joinGroup hfirst hsecond hzeroLt hzeroLt
      have hlost : second.toNat % 16 = 0 := hbits second rfl
      have hzero : second * 16 + 0 / 4 = 0 := by
        apply UInt8.toNat.inj
        simp only [UInt8.toNat_add, UInt8.toNat_mul, UInt8.toNat_div, UInt8.reduceToNat]
        omega
      have hempty : (0 : UInt8) * 64 + 0 = 0 := rfl
      rw [hzero, hempty] at hsplit
      refine ⟨[first * 4 + second / 16], ?_⟩
      rw [encode_eq, encodeOnto, hsplit]
      rfl

/-- By groups of four characters. Those in front of the last group hold no padding, since there is not
enough of it. -/
theorem exists_encode_of_canonical {text : Bytes} (hlength : text.length % 4 = 0)
    (hdigits : ∀ character ∈ text, ∃ value, digitValue? character = some value)
    (hcanonical : Canonical text) : ∃ data, encode data = text := by
  obtain ⟨digits, count, htext, hpadding, hcount, hbits⟩ := hcanonical
  have hsize : digits.length + count = text.length := by
    rw [htext, List.length_append, List.length_replicate]
  have hread : ∀ character ∈ digits, ∃ value, digitValue? character = some value := by
    intro character hmem
    exact hdigits character (htext ▸ List.mem_append_left _ hmem)
  obtain ⟨values, hvalues, hmap⟩ := exists_map_digit_eq hpadding hread
  have hvaluesLength : values.length = digits.length := by rw [← hmap, List.length_map]
  by_cases hempty : text.length = 0
  · exact ⟨[], (List.length_eq_zero_iff.1 hempty).symm⟩
  by_cases hlast : text.length = 4
  · rw [htext, ← hmap]
    refine exists_encode_last (by omega) hcount hvalues fun value hvalue => ?_
    have hlt := hvalues value (List.mem_of_getLast? hvalue)
    refine hbits (digit value) value ?_ (digitValue?_digit hlt)
    rw [← hmap, List.getLast?_map, hvalue, Option.map_some]
  · have hfront : (values.take 4).map digit ++ text.drop 4 = text := by
      have htake : text.take 4 = (values.take 4).map digit := by
        rw [htext, List.take_append_of_le_length (by omega), ← hmap, List.map_take]
      rw [← htake, List.take_append_drop]
    have hrest : (text.drop 4).length % 4 = 0 := by
      rw [List.length_drop]
      omega
    have hsplit : (values.take 4).length = 4 := by
      rw [List.length_take]
      omega
    have hrestCanonical : Canonical (text.drop 4) := by
      rw [← canonical_group_append_iff (padding_not_mem_map_digit (values.take 4)) hrest, hfront]
      exact ⟨digits, count, htext, hpadding, hcount, hbits⟩
    obtain ⟨first, second, third, hgroup⟩ := exists_splitGroup_eq hsplit fun value hmem =>
      hvalues value (List.mem_of_mem_take hmem)
    obtain ⟨data, hdata⟩ := exists_encode_of_canonical hrest
      (fun character hmem => hdigits character (List.mem_of_mem_drop hmem)) hrestCanonical
    refine ⟨first :: second :: third :: data, ?_⟩
    rw [encode_group_append, hgroup, hdata, hfront]
termination_by text.length
decreasing_by
  rw [List.length_drop]
  omega

/-- Of the texts that are read, those in canonical form are the ones that are written. -/
theorem encode_eq_iff_canonical (hdecode : decode text = .ok data) :
    encode data = text ↔ Canonical text := by
  constructor
  · rintro rfl
    exact canonical_encode data
  · intro hcanonical
    obtain ⟨hlength, hcharacters⟩ := exists_decode_eq_ok_iff.1 ⟨data, hdecode⟩
    simp only [← exists_digitValue?_iff] at hcharacters
    obtain ⟨written, hwritten⟩ := exists_encode_of_canonical hlength hcharacters hcanonical
    rw [← hwritten, decode_encode] at hdecode
    rw [← Except.ok.inj hdecode, hwritten]

end Canonical

namespace BlockCoder

/-- The largest size that a coder can count. -/
def maxSize : Nat := 2147483647

/-- A coder that does what is usual as long as it can count the sizes: it writes the digits of the data, the
last group padded, and reads whole groups of digits, apart from what it passes over at the ends. -/
structure Standard (coder : BlockCoder) : Prop where
  encode_eq : ∀ data, 4 * ((data.length + 2) / 3) ≤ maxSize → coder.encode data = encodeOnto [] data
  decodes : ∀ text, text.length ≤ maxSize → coder.Decodes text

variable {coder : BlockCoder}

theorem standard_standard : standard.Standard :=
  ⟨fun _ _ => rfl, fun text _ => standard_decodes text⟩

theorem Standard.encodeWith_eq (hcoder : coder.Standard)
    (hsize : 4 * ((data.length + 2) / 3) ≤ maxSize) : encodeWith coder data = Base64.encode data := by
  rw [Base64.encode_eq]
  cases data with
  | nil => rfl
  | cons byte data => exact hcoder.encode_eq _ hsize

theorem Standard.decodeWith_eq (hcoder : coder.Standard) (hsize : text.length ≤ maxSize) :
    decodeWith coder text = Base64.decode text := by
  rw [decodeWith_eq_readDigits (hcoder.decodes text hsize), decode_eq_readDigits]

end BlockCoder

/-- **Base64 with a usual block coder.** Every byte string is written with four characters for each three
bytes begun, and read again from them. A text is read if and only if it falls into groups of four characters
that are digits or padding; then it gives three bytes for each group, less two if the last two places are
padded and less one if only the last one is. The same text is written for these bytes if and only if padding
stands in its last two places at most and the bits under it are zero. -/
theorem texts_are_read_by_groups {coder : BlockCoder} (hcoder : coder.Standard) :
    (∀ data, 4 * ((data.length + 2) / 3) ≤ BlockCoder.maxSize →
      (encodeWith coder data).length = 4 * ((data.length + 2) / 3) ∧
      decodeWith coder (encodeWith coder data) = .ok data) ∧
    ∀ text, text.length ≤ BlockCoder.maxSize →
      ((∃ data, decodeWith coder text = .ok data) ↔
        text.length % 4 = 0 ∧ ∀ character ∈ text, character ∈ alphabet ∨ character = padding) ∧
      (text.length % 4 ≠ 0 → decodeWith coder text = .error .partialGroup) ∧
      (text.length % 4 = 0 → (∃ character ∈ text, character ∉ alphabet ∧ character ≠ padding) →
        decodeWith coder text = .error .malformed) ∧
      ∀ data, decodeWith coder text = .ok data →
        data.length + lostPlaces text = 3 * (text.length / 4) ∧
        (encodeWith coder data = text ↔ Canonical text) := by
  constructor
  · intro data hsize
    have hlength := length_encode data
    have htext : (encode data).length ≤ BlockCoder.maxSize := by rwa [hlength]
    rw [hcoder.encodeWith_eq hsize, hcoder.decodeWith_eq htext]
    exact ⟨hlength, decode_encode data⟩
  · intro text hsize
    rw [hcoder.decodeWith_eq hsize]
    refine ⟨exists_decode_eq_ok_iff, fun hlength => ?_, decode_of_not_digit, fun data hdecode => ?_⟩
    · rw [decode_eq_readDigits, readDigits, if_pos hlength]
    · have hlength := length_of_decode_eq_ok hdecode
      have hwritten : 4 * ((data.length + 2) / 3) ≤ BlockCoder.maxSize := by omega
      rw [hcoder.encodeWith_eq hwritten]
      exact ⟨hlength, encode_eq_iff_canonical hdecode⟩

/-- Bits under padding are dropped in silence, and a hyphen at the end, which the coder passes over, is not. -/
theorem lost_bits_are_not_written :
    let coder := BlockCoder.standard
    coder.Standard ∧
      decodeWith coder (encodeWith coder [251, 255]) = .ok [251, 255] ∧
      (∃ data, decodeWith coder (Bytes.ofString "AB==") = .ok data ∧ data.length = 1 ∧
        encodeWith coder data ≠ Bytes.ofString "AB==") ∧
      decodeWith coder (Bytes.ofString "AAA-") = .error .malformed := by
  intro coder
  have hcoder : coder.Standard := BlockCoder.standard_standard
  obtain ⟨hwritten, hread⟩ := texts_are_read_by_groups hcoder
  have hsize : ∀ text : Bytes, text.length = 4 → text.length ≤ BlockCoder.maxSize := by
    intro text hlength
    rw [hlength]
    decide
  obtain ⟨haccepted, -, -, hcanonical⟩ := hread (Bytes.ofString "AB==") (hsize _ (by decide))
  obtain ⟨-, -, hrefused, -⟩ := hread (Bytes.ofString "AAA-") (hsize _ (by decide))
  have hdigits : ∀ character ∈ Bytes.ofString "AB==", character ∈ alphabet ∨ character = padding := by
    simp only [← exists_digitValue?_iff, ← exists_mapM_eq_some_iff]
    exact ⟨_, rfl⟩
  obtain ⟨data, hdata⟩ := haccepted.2 ⟨by decide, hdigits⟩
  obtain ⟨hlength, hagain⟩ := hcanonical data hdata
  refine ⟨hcoder, (hwritten [251, 255] (by decide)).2, ⟨data, hdata, ?_, ?_⟩,
    hrefused (by decide) ⟨45, by decide⟩⟩
  · exact Nat.add_right_cancel (m := 2) hlength
  · have hpadded : Bytes.ofString "AB==" = [65, 66] ++ List.replicate 2 padding := by decide
    rw [ne_eq, hagain, hpadded, canonical_append_replicate_iff (by decide)]
    exact fun hbits => absurd (hbits.2 66 1 rfl rfl) (by decide)

end GroupChat.Base64
