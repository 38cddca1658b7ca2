import GroupChat.Proofs.Cursors

/-!
# Words and numbers

A word of 64 bits is written and read by shifting, one byte after the other. What is written and read in this
way is the number of the word in base 256 (`encode_eq`, `decode_of_le`), and neither shifting nor storing ever
goes wrong. Main statement: `words_round_trip`.
-/

namespace GroupChat

theorem Integer.capacity_le {width : Nat} (hwidth : width ≤ maxWidth) : capacity width ≤ capacity maxWidth :=
  Nat.pow_le_pow_right (by decide) hwidth

namespace Word

variable {value : UInt64} {width done left : Nat} {data : Bytes}

theorem toNat_lt_capacity (value : UInt64) : value.toNat < Integer.capacity Integer.maxWidth :=
  value.toNat_lt

/-- Shifting by whole bytes, as long as one byte is left, divides by the numbers that they hold. -/
theorem shiftRight_eq (value : UInt64) (hwidth : width < Integer.maxWidth) :
    shiftRight value (8 * width) = .ok (UInt64.ofNat (value.toNat / Integer.capacity width)) := by
  have hcount : 8 * width < places := Nat.mul_lt_mul_of_pos_left hwidth (by decide)
  have hpower : Nat.pow 2 (8 * width) = Integer.capacity width := Nat.pow_mul 2 8 width
  have hdefined : 8 * width % 64 = 8 * width := Nat.mod_eq_of_lt hcount
  have hquotient : value.toNat / Integer.capacity width < UInt64.size :=
    Nat.lt_of_le_of_lt (Nat.div_le_self _ _) value.toNat_lt
  rw [shiftRight, if_pos hcount]
  refine congrArg _ (UInt64.toNat.inj ?_)
  rw [UInt64.toNat_shiftRight, UInt64.toNat_ofNat_of_lt' hquotient,
    UInt64.toNat_ofNat_of_lt' (Nat.lt_trans hcount (by decide)), hdefined, Nat.shiftRight_eq_div_pow]
  exact congrArg (value.toNat / ·) hpower

/-- The byte behind those that are stored already is the lowest one of what is left after a shift. -/
theorem storeByte_eq (value : UInt64) (hleft : left < Integer.maxWidth) (front rest : Bytes) (old : UInt8) :
    storeByte value (front.length + (left + 1)) (front ++ old :: rest) front.length =
      .ok (front ++ UInt8.ofNat (value.toNat / Integer.capacity left) :: rest) := by
  have hcount : front.length + (left + 1) - front.length - 1 = left := by omega
  have hindex : front.length < (front ++ old :: rest).length := by simp
  rw [storeByte, hcount, shiftRight_eq value hleft]
  change store _ _ _ = _
  rw [store, if_pos hindex, UInt64.toUInt8_ofNat']
  simp

/-- After some rounds, the first bytes are those of what is left of the number without the last ones. -/
theorem foldlM_storeByte (value : UInt64) (hwidth : done + left ≤ Integer.maxWidth) :
    (List.range done).foldlM (storeByte value (done + left)) (List.replicate (done + left) 0) =
      .ok (Integer.bigEndian done (value.toNat / Integer.capacity left) ++ List.replicate left 0) := by
  induction done generalizing left with
  | zero => rw [Nat.zero_add]; rfl
  | succ done ih =>
      have hwidth' : done + 1 + left = done + (left + 1) := by omega
      have hleft : left < Integer.maxWidth := by omega
      have hdivide : value.toNat / Integer.capacity left / 256 =
          value.toNat / Integer.capacity (left + 1) :=
        Nat.div_div_eq_div_mul ..
      have hstore := storeByte_eq value hleft
        (Integer.bigEndian done (value.toNat / Integer.capacity (left + 1))) (List.replicate left 0) 0
      rw [Integer.length_bigEndian] at hstore
      rw [hwidth', List.range_succ, List.foldlM_append, ih (hwidth' ▸ hwidth)]
      change (List.foldlM _ _ [done] : Except WordError Bytes) = _
      rw [List.foldlM_cons, List.replicate_succ, hstore, Integer.bigEndian, hdivide,
        List.append_assoc]
      rfl

theorem fill_eq (value : UInt64) (hwidth : width ≤ Integer.maxWidth) :
    (List.range width).foldlM (storeByte value width) (List.replicate width 0) =
      .ok (Integer.bigEndian width value.toNat) := by
  have hrest : width + 0 ≤ Integer.maxWidth := hwidth
  have hfilled := foldlM_storeByte value hrest
  have hwhole : value.toNat / Integer.capacity 0 = value.toNat := Nat.div_one _
  rwa [List.replicate_zero, List.append_nil, hwhole] at hfilled

/-- Something is left after a shift if and only if the number does not fit below it. -/
theorem ofNat_div_ne_zero_iff (value : UInt64) (width : Nat) :
    UInt64.ofNat (value.toNat / Integer.capacity width) ≠ 0 ↔
      ¬value.toNat < Integer.capacity width := by
  have hquotient : value.toNat / Integer.capacity width < UInt64.size :=
    Nat.lt_of_le_of_lt (Nat.div_le_self _ _) value.toNat_lt
  have hpositive : Integer.capacity width ≠ 0 := Nat.pos_iff_ne_zero.1 (Nat.pow_pos (by decide))
  rw [ne_eq, ← UInt64.toNat_inj, UInt64.toNat_ofNat_of_lt' hquotient, UInt64.toNat_zero,
    Nat.div_eq_zero_iff, or_iff_right hpositive]

/-- A word is written as its number is. -/
theorem encode_eq (value : UInt64) (width : Nat) :
    encode value width = (Integer.encode value.toNat width).mapError .write := by
  by_cases hwide : Integer.maxWidth < width
  · rw [Integer.encode, if_pos hwide, encode, if_pos hwide]
    rfl
  have hwidth := Nat.not_lt.1 hwide
  rw [encode, if_neg hwide]
  by_cases hless : width < Integer.maxWidth
  · rw [if_pos hless, shiftRight_eq value hless, Integer.encode, if_neg hwide]
    by_cases hvalue : value.toNat < Integer.capacity width
    · rw [if_pos hvalue]
      have hzero := mt (ofNat_div_ne_zero_iff value width).1 (not_not_intro hvalue)
      change (if UInt64.ofNat (value.toNat / Integer.capacity width) ≠ 0 then _ else _) = _
      rw [if_neg hzero]
      exact fill_eq value hwidth
    · rw [if_neg hvalue]
      exact if_pos ((ofNat_div_ne_zero_iff value width).2 hvalue)
  -- The number of a word fits into all its bytes, and is not looked at.
  · have hall : width = Integer.maxWidth := by omega
    have hvalue : value.toNat < Integer.capacity width := hall ▸ toNat_lt_capacity value
    rw [if_neg hless, Integer.encode_of_lt hwidth hvalue]
    exact fill_eq value hwidth

theorem decode_of_le (hlength : data.length ≤ Integer.maxWidth) :
    decode data = .ok (UInt64.ofNat (Integer.ofBigEndian data)) := by
  rw [decode, if_neg (Nat.not_lt.2 hlength)]
  exact congrArg Except.ok (foldl_shiftIn data 0)

/-- The number of as many bytes as a word has is not cut off. -/
theorem toNat_ofBigEndian (hlength : data.length ≤ Integer.maxWidth) :
    (UInt64.ofNat (Integer.ofBigEndian data)).toNat = Integer.ofBigEndian data :=
  UInt64.toNat_ofNat_of_lt'
    (Nat.lt_of_lt_of_le (Integer.ofBigEndian_lt_capacity data) (Integer.capacity_le hlength))

end Word

/-- The value of a record is read in a word, and still it is the number that its bytes stand for. -/
theorem Record.integer_eq (record : Record) : record.integer = Integer.decode record.value := by
  by_cases hlong : Integer.maxWidth < record.value.length
  · rw [integer, Word.decode, if_pos hlong, Integer.decode, if_pos hlong]
    rfl
  · rw [integer, Word.decode_of_le (Nat.not_lt.1 hlong), Integer.decode, if_neg hlong]
    exact congrArg Except.ok (Word.toNat_ofBigEndian (Nat.not_lt.1 hlong))

namespace Word

theorem encode_eq_ok_iff :
    encode value width = .ok data ↔
      (width ≤ 8 ∧ value.toNat < Integer.capacity width) ∧ data = Integer.bigEndian width value.toNat := by
  rw [encode_eq, mapError_eq_ok_iff]
  by_cases hfits : width ≤ Integer.maxWidth ∧ value.toNat < Integer.capacity width
  · rw [Integer.encode_of_lt hfits.1 hfits.2, Except.ok.injEq, eq_comm]
    exact (and_iff_right hfits).symm
  · refine iff_of_false (fun hok => ?_) fun hdata => hfits hdata.1
    rw [Integer.encode] at hok
    split at hok
    · cases hok
    · rename_i hwidth
      rw [if_neg fun hvalue => hfits ⟨Nat.not_lt.1 hwidth, hvalue⟩] at hok
      cases hok

/-- Nothing keeps a word from being written but its width and its number, in this order. -/
theorem eq_of_encode_eq_error {error : WordError} (herror : encode value width = .error error) :
    error = .write (if 8 < width then .integerTooWide else .integerTooLarge) := by
  rw [encode_eq, Integer.encode] at herror
  split at herror
  · rename_i hwide
    cases herror
    exact congrArg WordError.write (if_pos hwide).symm
  · rename_i hwidth
    split at herror
    · cases herror
    · cases herror
      exact congrArg WordError.write (if_neg hwidth).symm

/-- What a word is written as is read as the same word. -/
theorem decode_of_encode (hencode : encode value width = .ok data) :
    data.length = width ∧ decode data = .ok value := by
  obtain ⟨⟨hwidth, hvalue⟩, rfl⟩ := encode_eq_ok_iff.1 hencode
  have hlength := Integer.length_bigEndian width value.toNat
  refine ⟨hlength, ?_⟩
  rw [decode_of_le (Nat.le_trans (Nat.le_of_eq hlength) hwidth), Integer.ofBigEndian_bigEndian hvalue,
    UInt64.ofNat_toNat]

/-- **Words as bytes.** A word is written in a width of at most eight bytes that has room for its number, and
in no other one. Then it takes just that many bytes, and is read from them again. From at most eight bytes, a word
is read that has the number which they stand for, with nothing cut off, and it is written as the same bytes
again. More bytes are refused. A cursor, wherever it stands, reads from the next bytes what they are read as if
a word has room for them, and else the last bits of their number; it fails without consuming any if there are too
few of them. No shift goes as far as a word does, and no byte is stored outside. -/
theorem words_round_trip :
    (∀ (value : UInt64) (width : Nat),
      ((∃ data, encode value width = .ok data) ↔ width ≤ 8 ∧ value.toNat < Integer.capacity width) ∧
      (∀ data, encode value width = .ok data → data.length = width ∧ decode data = .ok value) ∧
      ∀ error, encode value width = .error error →
        error = .write (if 8 < width then .integerTooWide else .integerTooLarge)) ∧
    (∀ data : Bytes, data.length ≤ 8 →
      ∃ value, decode data = .ok value ∧ value.toNat = Integer.ofBigEndian data ∧
        value.toNat < Integer.capacity data.length ∧ encode value data.length = .ok data) ∧
    (∀ data : Bytes, 8 < data.length → decode data = .error .integerTooWide) ∧
    ∀ (front rest : Bytes) (width : Nat),
      let cursor : Cursor := ⟨front ++ rest, front.length⟩
      (rest.length < width → cursor.integer width = (.error (.read .pastEnd), cursor)) ∧
      (width ≤ rest.length → ∃ value,
        cursor.integer width = (.ok value, ⟨front ++ rest, front.length + width⟩) ∧
        value.toNat = Integer.ofBigEndian (rest.take width) % UInt64.size ∧
        (width ≤ 8 → decode (rest.take width) = .ok value)) := by
  refine ⟨fun value width => ⟨?_, fun _ => decode_of_encode, fun _ => eq_of_encode_eq_error⟩,
    fun data hlength => ?_, fun data hlong => if_pos hlong, fun front rest width => ?_⟩
  · simp only [encode_eq_ok_iff, exists_and_left, exists_eq, and_true]
  · have hnumber := toNat_ofBigEndian hlength
    have hbelow := Integer.ofBigEndian_lt_capacity data
    rw [← hnumber] at hbelow
    refine ⟨_, decode_of_le hlength, hnumber, hbelow, encode_eq_ok_iff.2 ⟨⟨hlength, hbelow⟩, ?_⟩⟩
    rw [hnumber, Integer.bigEndian_ofBigEndian]
  · intro cursor
    have hstands : cursor.Stands (front ++ rest) rest :=
      ⟨rfl, by simp [cursor], by simp [cursor]⟩
    refine ⟨hstands.integer_of_lt, fun hlong => ⟨_, hstands.integer_of_le hlong, UInt64.toNat_ofNat', ?_⟩⟩
    exact fun hwidth => decode_of_le (Nat.le_trans (List.length_take_le width rest) hwidth)

end Word

end GroupChat
