import GroupChat.Bytes.Hex
import GroupChat.Order
import GroupChat.Proofs.Results
import Mathlib.Data.List.Induction

/-!
# Which texts name bytes in base sixteen

A byte is two digits, the upper half first. Main statement: every byte string is read again from the text
that is written for it, the texts that are read are those of an even number of digits, and such a text
differs at most in its capital letters from the one that is written for what it says.
-/

namespace GroupChat.Hex

variable {text data values : Bytes} {character value : UInt8}

/-- The digits that are written, in the order of their values. -/
def lowerDigits : Bytes := Bytes.ofString "0123456789abcdef"

/-- The letters that are read as well. -/
def capitals : Bytes := Bytes.ofString "ABCDEF"

/-- A number in base sixteen, with zeros in front of it up to a width. -/
def numeral (width value : Nat) : Bytes :=
  ((Nat.toDigits 16 value).leftpad width '0').flatMap String.utf8EncodeChar

section Digits

theorem lowerDigits_eq : lowerDigits = (List.range 16).map fun value => digit (UInt8.ofNat value) := by
  decide

theorem digit_mem_lowerDigits (hvalue : value < 16) : digit value ∈ lowerDigits := by
  rw [lowerDigits_eq, List.mem_map]
  refine ⟨value.toNat, List.mem_range.2 (UInt8.lt_iff_toNat_lt.1 hvalue), ?_⟩
  rw [UInt8.ofNat_toNat]

/-- A character is a digit if it is one of those that are written, or a capital letter among them. -/
theorem isSome_digitValue? (character : UInt8) :
    (digitValue? character).isSome = decide (character ∈ lowerDigits ∨ character ∈ capitals) :=
  Bytes.forall_byte
    (motive := fun character =>
      (digitValue? character).isSome = decide (character ∈ lowerDigits ∨ character ∈ capitals))
    (by decide +kernel) character

theorem exists_digitValue?_iff :
    (∃ value, digitValue? character = some value) ↔ character ∈ lowerDigits ∨ character ∈ capitals := by
  rw [← Option.isSome_iff_exists, isSome_digitValue?, decide_eq_true_iff]

theorem digitValue?_digit (hvalue : value < 16) : digitValue? (digit value) = some value := by
  have hall : ∀ index : Fin 16, digitValue? (digit (UInt8.ofNat index)) = some (UInt8.ofNat index) := by
    decide
  have hdigit := hall ⟨value.toNat, UInt8.lt_iff_toNat_lt.1 hvalue⟩
  rwa [UInt8.ofNat_toNat] at hdigit

/-- The digit that is written for a value is the one it was read from, or that one in lower case. -/
theorem digit_of_digitValue? (hvalue : digitValue? character = some value) :
    value < 16 ∧ digit value = StrictWeakOrder.foldCase character :=
  Bytes.forall_byte
    (motive := fun character => ∀ value ∈ digitValue? character,
      value < 16 ∧ digit value = StrictWeakOrder.foldCase character)
    (by decide +kernel) character value hvalue

end Digits

section Halves

def halves (byte : UInt8) : List UInt8 := [byte / 16, byte % 16]

theorem lt_of_mem_halves {byte : UInt8} (hmem : value ∈ halves byte) : value < 16 := by
  have hbyte := byte.toNat_lt
  rw [UInt8.lt_iff_toNat_lt]
  rcases List.mem_pair.1 hmem with rfl | rfl
  · simp only [UInt8.toNat_div, UInt8.reduceToNat]
    omega
  · simp only [UInt8.toNat_mod, UInt8.reduceToNat]
    omega

theorem join_halves (byte : UInt8) : byte / 16 * 16 + byte % 16 = byte := by
  apply UInt8.toNat.inj
  have hbyte := byte.toNat_lt
  simp only [UInt8.toNat_add, UInt8.toNat_mul, UInt8.toNat_div, UInt8.toNat_mod, UInt8.reduceToNat]
  omega

theorem halves_join {high low : UInt8} (hhigh : high < 16) (hlow : low < 16) :
    halves (high * 16 + low) = [high, low] := by
  rw [UInt8.lt_iff_toNat_lt] at hhigh hlow
  simp only [halves, List.cons.injEq, and_true]
  constructor
  all_goals
    apply UInt8.toNat.inj
    simp only [UInt8.toNat_add, UInt8.toNat_mul, UInt8.toNat_div, UInt8.toNat_mod, UInt8.reduceToNat] at *
    omega

theorem length_flatMap_halves (data : Bytes) : (data.flatMap halves).length = 2 * data.length := by
  induction data with
  | nil => rfl
  | cons byte rest ih =>
      rw [List.flatMap_cons, List.length_append, ih, List.length_cons]
      simp only [halves, List.length_cons, List.length_nil]
      omega

/-- The bytes that were joined before stand in front of those that are still to be joined. -/
theorem joinPairs_eq_append (reversed values : Bytes) :
    joinPairs reversed values = reversed.reverse ++ joinPairs [] values := by
  induction values using List.twoStepInduction generalizing reversed with
  | nil => exact (List.append_nil _).symm
  | singleton value => exact (List.append_nil _).symm
  | cons_cons high low rest ih _ =>
      rw [joinPairs, ih, joinPairs, ih [high * 16 + low], List.reverse_cons, List.append_assoc]
      rfl

theorem joinPairs_cons_cons (high low : UInt8) (rest : Bytes) :
    joinPairs [] (high :: low :: rest) = (high * 16 + low) :: joinPairs [] rest := by
  rw [joinPairs, joinPairs_eq_append]
  rfl

theorem joinPairs_flatMap_halves (data : Bytes) : joinPairs [] (data.flatMap halves) = data := by
  induction data with
  | nil => rfl
  | cons byte rest ih =>
      rw [List.flatMap_cons, halves, List.cons_append, List.cons_append, List.nil_append,
        joinPairs_cons_cons, ih, join_halves]

theorem flatMap_halves_joinPairs (hvalues : ∀ value ∈ values, value < 16)
    (heven : values.length % 2 = 0) : (joinPairs [] values).flatMap halves = values := by
  induction values using List.twoStepInduction with
  | nil => rfl
  | singleton value => cases heven
  | cons_cons high low rest ih _ =>
      obtain ⟨hhigh, hvalues⟩ := List.forall_mem_cons.1 hvalues
      obtain ⟨hlow, hrest⟩ := List.forall_mem_cons.1 hvalues
      rw [List.length_cons, List.length_cons] at heven
      rw [joinPairs_cons_cons, List.flatMap_cons, halves_join hhigh hlow, ih hrest (by omega)]
      rfl

end Halves

section Texts

theorem encode_eq_map_digit (data : Bytes) : encode data = (data.flatMap halves).map digit := by
  rw [List.map_flatMap]
  rfl

theorem encode_eq_flatMap_numeral (data : Bytes) :
    encode data = data.flatMap fun byte => numeral 2 byte.toNat := by
  have hbyte := Bytes.forall_byte
    (motive := fun byte => [digit (byte / 16), digit (byte % 16)] = numeral 2 byte.toNat) (by decide +kernel)
  exact congrArg (data.flatMap ·) (funext hbyte)

theorem decode_eq_ok_iff : decode text = .ok data ↔ text.mapM digitValue? = some (data.flatMap halves) := by
  constructor
  · intro hdecode
    unfold decode at hdecode
    split at hdecode
    · cases hdecode
    · rename_i heven
      cases hvalues : text.mapM digitValue? with
      | none =>
          rw [hvalues] at hdecode
          cases hdecode
      | some values =>
          rw [hvalues] at hdecode
          cases hdecode
          have hlength := length_of_mapM_eq_some hvalues
          have hlt := forall_of_mapM_eq_some (fun _ _ hvalue => (digit_of_digitValue? hvalue).1) hvalues
          rw [flatMap_halves_joinPairs hlt (by omega)]
  · intro hvalues
    have hlength := length_of_mapM_eq_some hvalues
    rw [length_flatMap_halves] at hlength
    rw [decode, if_neg (by omega), hvalues]
    exact congrArg _ (joinPairs_flatMap_halves data)

theorem exists_decode_eq_ok_iff :
    (∃ data, decode text = .ok data) ↔
      text.length % 2 = 0 ∧ ∀ character ∈ text, character ∈ lowerDigits ∨ character ∈ capitals := by
  simp only [← exists_digitValue?_iff, ← exists_mapM_eq_some_iff]
  constructor
  · rintro ⟨data, hdecode⟩
    have hvalues := decode_eq_ok_iff.1 hdecode
    have hlength := length_of_mapM_eq_some hvalues
    rw [length_flatMap_halves] at hlength
    exact ⟨by omega, _, hvalues⟩
  · rintro ⟨heven, values, hvalues⟩
    exact ⟨joinPairs [] values, by rw [decode, if_neg (by omega), hvalues]⟩

theorem decode_of_odd (hodd : text.length % 2 = 1) : decode text = .error .oddLength := if_pos hodd

theorem decode_of_not_digit (heven : text.length % 2 = 0)
    (hcharacter : ∃ character ∈ text, ¬(character ∈ lowerDigits ∨ character ∈ capitals)) :
    decode text = .error .invalidDigit := by
  obtain ⟨character, hmem, hnot⟩ := hcharacter
  have hnone : text.mapM digitValue? = none := by
    refine Option.eq_none_iff_forall_ne_some.2 fun values hvalues => hnot ?_
    exact exists_digitValue?_iff.1 (exists_mapM_eq_some_iff.1 ⟨values, hvalues⟩ character hmem)
  rw [decode, if_neg (by omega), hnone]

theorem decode_encode (data : Bytes) : decode (encode data) = .ok data := by
  rw [decode_eq_ok_iff, encode_eq_map_digit]
  refine mapM_map_eq_some fun value hmem => digitValue?_digit ?_
  obtain ⟨byte, -, hvalue⟩ := List.mem_flatMap.1 hmem
  exact lt_of_mem_halves hvalue

theorem encode_of_decode (hdecode : decode text = .ok data) :
    encode data = text.map StrictWeakOrder.foldCase := by
  rw [encode_eq_map_digit]
  exact map_eq_of_mapM_eq_some (fun _ _ hvalue => (digit_of_digitValue? hvalue).2)
    (decode_eq_ok_iff.1 hdecode)

/-- **Bytes as hexadecimal text.** Each byte is written as its number in base sixteen, in two digits with
lower-case letters, and what is written is read as the same bytes again. The texts that can be read are
those of an even number of digits, where letters may be capital, and they say what their text in lower case
says. An odd number of characters is an error of its own, whatever the characters are, and otherwise there is
a character that is no digit. -/
theorem texts_are_read_in_pairs :
    (∀ data, decode (encode data) = .ok data ∧ (encode data).length = 2 * data.length ∧
      (∀ character ∈ encode data, character ∈ lowerDigits) ∧
      encode data = data.flatMap fun byte => numeral 2 byte.toNat) ∧
    (∀ text, (∃ data, decode text = .ok data) ↔
      text.length % 2 = 0 ∧ ∀ character ∈ text, character ∈ lowerDigits ∨ character ∈ capitals) ∧
    (∀ text data, decode text = .ok data → encode data = text.map StrictWeakOrder.foldCase) ∧
    (∀ text, text.length % 2 = 1 → decode text = .error .oddLength) ∧
    ∀ text, text.length % 2 = 0 →
      (∃ character ∈ text, ¬(character ∈ lowerDigits ∨ character ∈ capitals)) →
      decode text = .error .invalidDigit := by
  refine ⟨fun data => ⟨decode_encode data, ?_, ?_, encode_eq_flatMap_numeral data⟩,
    fun _ => exists_decode_eq_ok_iff, fun _ _ => encode_of_decode, fun _ => decode_of_odd,
    fun _ => decode_of_not_digit⟩
  · rw [encode_eq_map_digit, List.length_map, length_flatMap_halves]
  · intro character hmem
    rw [encode_eq_map_digit] at hmem
    obtain ⟨value, hvalue, rfl⟩ := List.mem_map.1 hmem
    obtain ⟨byte, -, hhalf⟩ := List.mem_flatMap.1 hvalue
    exact digit_mem_lowerDigits (lt_of_mem_halves hhalf)

end Texts

end GroupChat.Hex
