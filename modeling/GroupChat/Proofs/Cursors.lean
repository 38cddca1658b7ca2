import GroupChat.Proofs.RecordStreams
import GroupChat.Record.Cursor

/-!
# A cursor stays inside its data

A read that fails may stop in the middle of a header, and the next one goes on from there as if a record
began. Main statement: whatever is called on a cursor, it stands inside its data and takes bytes from nowhere
else, and each call consumes just as much as its outcome says.
-/

namespace GroupChat

namespace Reader

variable {data : Bytes} {count width : Nat} {onShort : ReadError}

/-- How long the value is to be, according to the header that the data begins with. -/
def announced (data : Bytes) : Nat := Integer.ofBigEndian ((data.drop 2).take 2)

theorem take_of_lt (hshort : data.length < count) : take count onShort data = (.error onShort, data) := by
  have hfront : (data.take count).length < count := by
    rw [List.length_take]
    omega
  exact if_pos hfront

theorem take_of_le (hlong : count ≤ data.length) :
    take count onShort data = (.ok (data.take count), data.drop count) := by
  have hfront : ¬(data.take count).length < count := by
    rw [List.length_take]
    omega
  exact if_neg hfront

theorem integer_of_lt (hshort : data.length < width) : integer width data = (.error .pastEnd, data) := by
  rw [integer, take_of_lt hshort]

theorem integer_of_le (hlong : width ≤ data.length) :
    integer width data = (.ok (Integer.ofBigEndian (data.take width)), data.drop width) := by
  rw [integer, take_of_le hlong]

theorem next_of_lt_two (hshort : data.length < 2) : next data = (.error .pastEnd, data) := by
  rw [next, integer_of_lt hshort]

theorem next_of_lt_four (htag : 2 ≤ data.length) (hshort : data.length < 4) :
    next data = (.error .pastEnd, data.drop 2) := by
  have hlength : (data.drop 2).length < 2 := by
    rw [List.length_drop]
    omega
  rw [next, integer_of_le htag]
  simp only [integer_of_lt hlength]

/-- Behind a header, only the value is left to be taken. -/
theorem next_of_header (hheader : 4 ≤ data.length) :
    ∃ tag, next data =
      ((take (announced data) .valuePastEnd (data.drop 4)).1.map (Record.mk tag),
        (take (announced data) .valuePastEnd (data.drop 4)).2) := by
  have htag : 2 ≤ data.length := by omega
  have hlength : 2 ≤ (data.drop 2).length := by
    rw [List.length_drop]
    omega
  refine ⟨UInt16.ofNat (Integer.ofBigEndian (data.take 2)), ?_⟩
  rw [next, integer_of_le htag]
  simp only [integer_of_le hlength, List.drop_drop, Nat.reduceAdd]
  rw [← announced]
  cases take (announced data) .valuePastEnd (data.drop 4) with
  | mk outcome rest => cases outcome <;> rfl

theorem next_of_lt_announced (hheader : 4 ≤ data.length) (hshort : data.length < 4 + announced data) :
    next data = (.error .valuePastEnd, data.drop 4) := by
  obtain ⟨tag, hnext⟩ := next_of_header hheader
  have hvalue : (data.drop 4).length < announced data := by
    rw [List.length_drop]
    omega
  rw [hnext, take_of_lt hvalue]
  rfl

theorem next_of_announced_le (hlong : 4 + announced data ≤ data.length) :
    ∃ record rest, next data = (.ok record, rest) := by
  obtain ⟨tag, hnext⟩ := next_of_header (Nat.le_of_add_right_le hlong)
  have hvalue : announced data ≤ (data.drop 4).length := by
    rw [List.length_drop]
    omega
  rw [hnext, take_of_le hvalue]
  exact ⟨_, _, rfl⟩

/-- All that one read can come to. -/
theorem next_cases (data : Bytes) :
    (∃ record rest, next data = (.ok record, rest)) ∨
    (data.length < 2 ∧ next data = (.error .pastEnd, data)) ∨
    (2 ≤ data.length ∧ data.length < 4 ∧ next data = (.error .pastEnd, data.drop 2)) ∨
    (4 ≤ data.length ∧ data.length < 4 + announced data ∧
      next data = (.error .valuePastEnd, data.drop 4)) := by
  by_cases htag : data.length < 2
  · exact Or.inr (Or.inl ⟨htag, next_of_lt_two htag⟩)
  rw [Nat.not_lt] at htag
  by_cases hheader : data.length < 4
  · exact Or.inr (Or.inr (Or.inl ⟨htag, hheader, next_of_lt_four htag hheader⟩))
  rw [Nat.not_lt] at hheader
  by_cases hvalue : data.length < 4 + announced data
  · exact Or.inr (Or.inr (Or.inr ⟨hheader, hvalue, next_of_lt_announced hheader hvalue⟩))
  · exact Or.inl (next_of_announced_le (Nat.not_lt.1 hvalue))

theorem peekTag?_eq_none_iff : peekTag? data = none ↔ data.length < 2 := by
  match data with
  | [] | [_] => exact iff_of_true rfl (by simp)
  | high :: low :: rest => exact iff_of_false (by rintro ⟨⟩) (by simp)

end Reader

theorem Record.length_layout (record : Record) : record.layout.length = 4 + record.value.length := by
  rw [layout, List.length_append, List.length_append, Integer.length_bigEndian, Integer.length_bigEndian]

namespace Cursor

variable {cursor : Cursor} {data rest : Bytes} {count : Nat}

/-- The cursor stands inside the data, and this is the rest behind it. -/
structure Stands (cursor : Cursor) (data rest : Bytes) : Prop where
  data_eq : cursor.data = data
  position_le : cursor.position ≤ data.length
  drop_eq : data.drop cursor.position = rest

theorem extract_of_next_eq_ok {later : Cursor} {record : Record} (target : Record)
    (hnext : cursor.next = (.ok record, later)) : cursor.extract target = (.ok (), record, later) := by
  rw [extract, hnext]

theorem extract_of_next_eq_error {later : Cursor} {error : CursorError} (target : Record)
    (hnext : cursor.next = (.error error, later)) :
    cursor.extract target = (.error error, target, later) := by
  rw [extract, hnext]

theorem snd_extract (cursor : Cursor) (target : Record) :
    (cursor.extract target).2.2 = cursor.next.2 := by
  cases hnext : cursor.next with
  | mk outcome later =>
      cases outcome with
      | error error => rw [extract_of_next_eq_error target hnext]
      | ok record => rw [extract_of_next_eq_ok target hnext]

namespace Stands

theorem start (data : Bytes) : Stands ⟨data, 0⟩ data data := ⟨rfl, Nat.zero_le _, rfl⟩

theorem length (hstands : cursor.Stands data rest) : rest.length + cursor.position = data.length := by
  obtain ⟨rfl, hposition, rfl⟩ := hstands
  rw [List.length_drop]
  omega

theorem size_eq (hstands : cursor.Stands data rest) : cursor.size = rest.length := by
  have hlength := hstands.length
  rw [size, hstands.data_eq]
  omega

theorem isEmpty_iff (hstands : cursor.Stands data rest) : cursor.isEmpty = true ↔ rest = [] := by
  have hlength := hstands.length
  rw [isEmpty, hstands.data_eq, beq_iff_eq, ← List.length_eq_zero_iff]
  omega

theorem advance (hstands : cursor.Stands data rest) (hcount : count ≤ rest.length) :
    (cursor.advance count).Stands data (rest.drop count) := by
  have hlength := hstands.length
  obtain ⟨rfl, -, rfl⟩ := hstands
  refine ⟨rfl, ?_, List.drop_drop.symm⟩
  change cursor.position + count ≤ cursor.data.length
  omega

theorem byteAt_eq (hstands : cursor.Stands data rest) (index : Nat) (hindex : index < rest.length) :
    cursor.byteAt (cursor.position + index) = .ok rest[index] := by
  obtain ⟨rfl, -, rfl⟩ := hstands
  rw [byteAt, ← List.getElem?_drop, List.getElem?_eq_getElem hindex]

theorem slice_eq (hstands : cursor.Stands data rest) (hcount : count ≤ rest.length) :
    cursor.slice cursor.position (cursor.position + count) = .ok (rest.take count) := by
  have hlength := hstands.length
  obtain ⟨rfl, -, rfl⟩ := hstands
  have hinside : cursor.position ≤ cursor.position + count ∧
      cursor.position + count ≤ cursor.data.length := by omega
  rw [slice, if_pos hinside, List.take_drop]

theorem remaining_eq (hstands : cursor.Stands data rest) : cursor.remaining = .ok rest := by
  have hlength := hstands.length
  have hslice := hstands.slice_eq (Nat.le_refl rest.length)
  have hend : cursor.position + rest.length = cursor.data.length := by
    rw [hstands.data_eq]
    omega
  rwa [hend, List.take_length] at hslice

theorem peekTag?_eq (hstands : cursor.Stands data rest) :
    cursor.peekTag? = .ok (Reader.peekTag? rest) := by
  rw [peekTag?, hstands.size_eq]
  match rest, hstands with
  | [], _ | [_], _ => rfl
  | high :: low :: later, hstands =>
      have hlong : ¬(high :: low :: later).length < 2 := by simp
      have hhigh : cursor.byteAt cursor.position = .ok high :=
        hstands.byteAt_eq 0 (by simp)
      have hlow : cursor.byteAt (cursor.position + 1) = .ok low := hstands.byteAt_eq 1 (by simp)
      rw [if_neg hlong, hhigh, hlow]
      rfl

theorem shiftIn_eq (hstands : cursor.Stands data rest) (value : UInt64) (hcount : count ≤ rest.length) :
    cursor.shiftIn value count =
      (.ok ((rest.take count).foldl Word.shiftIn value), cursor.advance count) := by
  induction count generalizing cursor rest value with
  | zero => rfl
  | succ count ih =>
      cases rest with
      | nil => simp at hcount
      | cons byte later =>
          have hbyte : cursor.byteAt cursor.position = .ok byte :=
            hstands.byteAt_eq 0 (by simp)
          have hnext : (cursor.advance 1).Stands data later := hstands.advance (by simp)
          have hmoved : (cursor.advance 1).advance count = cursor.advance (count + 1) := by
            rw [Cursor.advance, Cursor.advance, Cursor.advance, Nat.add_assoc, Nat.add_comm 1 count]
          rw [shiftIn, hbyte]
          simp only [ih hnext _ (Nat.le_of_succ_le_succ hcount), hmoved, List.take_succ_cons,
            List.foldl_cons]

theorem integer_of_lt (hstands : cursor.Stands data rest) {width : Nat} (hshort : rest.length < width) :
    cursor.integer width = (.error (.read .pastEnd), cursor) := by
  rw [integer, hstands.size_eq, if_pos hshort]

theorem integer_of_le (hstands : cursor.Stands data rest) {width : Nat} (hlong : width ≤ rest.length) :
    cursor.integer width =
      (.ok (UInt64.ofNat (Integer.ofBigEndian (rest.take width))), cursor.advance width) := by
  have hword : (rest.take width).foldl Word.shiftIn 0 =
      UInt64.ofNat (Integer.ofBigEndian (rest.take width)) :=
    Word.foldl_shiftIn (rest.take width) 0
  rw [integer, hstands.size_eq, if_neg (Nat.not_lt.2 hlong), hstands.shiftIn_eq 0 hlong, hword]

/-- A cursor reads an integer as it is read off the front of the rest, as far as a word can hold it. -/
theorem integer_eq (hstands : cursor.Stands data rest) (width : Nat) :
    ∃ later, cursor.integer width =
        (((Reader.integer width rest).1.map UInt64.ofNat).mapError .read, later) ∧
      later.Stands data (Reader.integer width rest).2 := by
  by_cases hshort : rest.length < width
  · rw [Reader.integer_of_lt hshort]
    exact ⟨cursor, hstands.integer_of_lt hshort, hstands⟩
  · have hlong := Nat.not_lt.1 hshort
    rw [Reader.integer_of_le hlong]
    exact ⟨cursor.advance width, hstands.integer_of_le hlong, hstands.advance hlong⟩

/-- A cursor reads a record as it is read off the front of the rest. -/
theorem next_eq (hstands : cursor.Stands data rest) :
    ∃ later, cursor.next = ((Reader.next rest).1.mapError .read, later) ∧
      later.Stands data (Reader.next rest).2 := by
  obtain ⟨afterTag, htag, hstandsTag⟩ := hstands.integer_eq 2
  rw [next, Reader.next, htag]
  revert hstandsTag
  cases Reader.integer 2 rest with
  | mk outcome restTag =>
      cases outcome with
      | error error => exact fun hstandsTag => ⟨afterTag, rfl, hstandsTag⟩
      | ok tag =>
          intro hstandsTag
          obtain ⟨afterLength, hlength, hstandsLength⟩ := hstandsTag.integer_eq 2
          simp only [Except.map, Except.mapError] at hlength ⊢
          rw [hlength, UInt64.toUInt16_ofNat']
          revert hstandsLength
          cases hread : Reader.integer 2 restTag with
          | mk outcome restLength =>
              cases outcome with
              | error error => exact fun hstandsLength => ⟨afterLength, rfl, hstandsLength⟩
              | ok length =>
                  intro hstandsLength
                  have hvalue : length < Integer.capacity 2 := (Reader.bigEndian_of_integer_eq_ok hread).2
                  have hlength : (UInt64.ofNat length).toNat = length :=
                    UInt64.toNat_ofNat_of_lt' (Nat.lt_trans hvalue (by decide))
                  simp only [hstandsLength.size_eq, hlength]
                  by_cases hshort : restLength.length < length
                  · rw [if_pos hshort, Reader.take_of_lt hshort]
                    exact ⟨afterLength, rfl, hstandsLength⟩
                  · have hlong := Nat.not_lt.1 hshort
                    rw [if_neg hshort, Reader.take_of_le hlong, hstandsLength.slice_eq hlong]
                    exact ⟨afterLength.advance length, rfl, hstandsLength.advance hlong⟩

theorem after (hstands : cursor.Stands data rest) (calls : List Call) :
    ∃ later, (cursor.after calls).Stands data later := by
  induction calls generalizing cursor rest with
  | nil => exact ⟨rest, hstands⟩
  | cons call calls ih =>
      obtain ⟨later, hnext, hlater⟩ := hstands.next_eq
      cases call with
      | next =>
          rw [Cursor.after, hnext]
          exact ih hlater
      | extract target =>
          rw [Cursor.after, snd_extract, hnext]
          exact ih hlater

end Stands

/-- A call that succeeds gives the record that begins where the cursor stands, of which the tag could be
seen before, and consumes just that record. -/
structure Reads (cursor later : Cursor) (record : Record) : Prop where
  next : cursor.next = (.ok record, later)
  extract : ∀ target, cursor.extract target = (.ok (), record, later)
  peekTag? : cursor.peekTag? = .ok (some record.tag)
  position : later.position = cursor.position + (4 + record.value.length)
  remaining : ∃ rest, cursor.remaining = .ok (record.layout ++ rest) ∧ later.remaining = .ok rest

/-- A call that fails says why, consumes this much, and leaves what it was to read into as it is. -/
structure Fails (cursor later : Cursor) (error : ReadError) (consumed : Nat) : Prop where
  next : cursor.next = (.error (.read error), later)
  extract : ∀ target, cursor.extract target = (.error (.read error), target, later)
  position : later.position = cursor.position + consumed

namespace Stands

theorem reads {record : Record} {behind : Bytes} (hstands : cursor.Stands data rest)
    (hnext : Reader.next rest = (.ok record, behind)) :
    ∃ later, cursor.Reads later record ∧ later.Stands data behind := by
  obtain ⟨later, hread, hlater⟩ := hstands.next_eq
  obtain ⟨-, rfl⟩ := Reader.next_eq_ok_iff.1 hnext
  rw [hnext] at hread hlater
  have hlength := hstands.length
  have hbehind : behind.length + later.position = data.length := hlater.length
  have hpeek := hstands.peekTag?_eq
  rw [Reader.peekTag?_layout_append] at hpeek
  refine ⟨later, ⟨hread, fun target => extract_of_next_eq_ok target hread, hpeek, ?_, behind,
    hstands.remaining_eq, hlater.remaining_eq⟩, hlater⟩
  rw [List.length_append, Record.length_layout] at hlength
  omega

theorem fails {error : ReadError} {behind : Bytes} {consumed : Nat} (hstands : cursor.Stands data rest)
    (hnext : Reader.next rest = (.error error, behind)) (hconsumed : behind.length + consumed = rest.length) :
    ∃ later, cursor.Fails later error consumed := by
  obtain ⟨later, hread, hlater⟩ := hstands.next_eq
  rw [hnext] at hread hlater
  have hlength := hstands.length
  have hbehind : behind.length + later.position = data.length := hlater.length
  exact ⟨later, hread, fun target => extract_of_next_eq_error target hread, by omega⟩

theorem reads_or_fails (hstands : cursor.Stands data rest) :
    (∃ record later, cursor.Reads later record) ∨
    (rest.length < 2 ∧ ∃ later, cursor.Fails later .pastEnd 0) ∨
    (2 ≤ rest.length ∧ rest.length < 4 ∧ ∃ later, cursor.Fails later .pastEnd 2) ∨
    (4 ≤ rest.length ∧ rest.length < 4 + Reader.announced rest ∧
      ∃ later, cursor.Fails later .valuePastEnd 4) := by
  rcases Reader.next_cases rest with ⟨record, behind, hnext⟩ | ⟨hshort, hnext⟩ |
    ⟨htag, hshort, hnext⟩ | ⟨hheader, hshort, hnext⟩
  · obtain ⟨later, hreads, -⟩ := hstands.reads hnext
    exact Or.inl ⟨record, later, hreads⟩
  · exact Or.inr (Or.inl ⟨hshort, hstands.fails hnext (Nat.add_zero _)⟩)
  · refine Or.inr (Or.inr (Or.inl ⟨htag, hshort, hstands.fails hnext ?_⟩))
    rw [List.length_drop]
    omega
  · refine Or.inr (Or.inr (Or.inr ⟨hheader, hshort, hstands.fails hnext ?_⟩))
    rw [List.length_drop]
    omega

end Stands

/-- Reading all records that are left: as long as the cursor is not at the end, the next record is read. The
number is that of the calls. -/
inductive ReadsAll : Cursor → Nat → Except ReadError (List Record) → Prop
  | atEnd {cursor : Cursor} (hend : cursor.isEmpty = true) : ReadsAll cursor 0 (.ok [])
  | failed {cursor later : Cursor} {error : ReadError} (hopen : cursor.isEmpty = false)
      (hnext : cursor.next = (.error (.read error), later)) : ReadsAll cursor 1 (.error error)
  | record {cursor later : Cursor} {record : Record} {calls : Nat}
      {result : Except ReadError (List Record)} (hopen : cursor.isEmpty = false)
      (hnext : cursor.next = (.ok record, later)) (hlater : ReadsAll later calls result) :
      ReadsAll cursor (calls + 1) (result.map (record :: ·))

namespace Stands

/-- By the length of the rest, of which every record that is read takes four bytes at least. -/
theorem exists_readsAll {cursor : Cursor} {data rest : Bytes} (hstands : cursor.Stands data rest) :
    ∃ calls, 4 * calls ≤ rest.length + 4 ∧ cursor.ReadsAll calls (Reader.readAll rest) := by
  by_cases hrest : rest = []
  · have hnone : Reader.readAll rest = .ok [] := by
      rw [Reader.readAll_eq_ok_iff, hrest, Record.stream_nil_iff]
    rw [hnone]
    exact ⟨0, by omega, .atEnd (hstands.isEmpty_iff.2 hrest)⟩
  have hopen : cursor.isEmpty = false := Bool.eq_false_iff.2 (mt hstands.isEmpty_iff.1 hrest)
  cases hnext : Reader.next rest with
  | mk outcome behind =>
      cases outcome with
      | error error =>
          obtain ⟨later, hread, -⟩ := hstands.next_eq
          have hfailed : Reader.readAll rest = .error error := by
            rw [Reader.readAll, Reader.readInto_of_not_isEmpty (mt List.isEmpty_iff.1 hrest), hnext]
            rfl
          rw [hnext] at hread
          rw [hfailed]
          exact ⟨1, by omega, .failed hopen hread⟩
      | ok record =>
          obtain ⟨later, hreads, hlater⟩ := hstands.reads hnext
          have hshorter := Reader.length_of_next_eq_ok hnext
          obtain ⟨calls, hcalls, hall⟩ := exists_readsAll hlater
          have hrecords : Reader.readAll rest = (Reader.readAll behind).map (record :: ·) := by
            obtain ⟨hfits, rfl⟩ := Reader.next_eq_ok_iff.1 hnext
            exact Reader.readAll_layout_append hfits
          rw [hrecords]
          exact ⟨calls + 1, by omega, .record hopen hreads.next hall⟩
termination_by rest.length

end Stands

/-- **A cursor stays inside its data.** After any calls, failed ones among them, a cursor stands inside its
data, and what remains is the rest of the data from there, as long as the size says. The tag of the next
record can be looked at if and only if two bytes are left. The next call either gives the record that begins
there and consumes just that record, or it fails: having consumed nothing if fewer than two bytes are left,
the tag if fewer than four are, and the header if the value is longer than what follows. None of this takes a
byte from outside the data. Reading all records comes to an end, after at most one call for every four bytes
and one more. -/
theorem cursor_stays_inside (data : Bytes) :
    (∀ calls : List Call,
      let cursor := (Cursor.mk data 0).after calls
      ∃ front rest, data = front ++ rest ∧ cursor.data = data ∧ cursor.position = front.length ∧
        cursor.remaining = .ok rest ∧ cursor.size = rest.length ∧ (cursor.isEmpty = true ↔ rest = []) ∧
        (∃ tag, cursor.peekTag? = .ok tag ∧ (tag = none ↔ rest.length < 2)) ∧
        ((∃ record later, cursor.Reads later record) ∨
          (rest.length < 2 ∧ ∃ later, cursor.Fails later .pastEnd 0) ∨
          (2 ≤ rest.length ∧ rest.length < 4 ∧ ∃ later, cursor.Fails later .pastEnd 2) ∨
          (4 ≤ rest.length ∧ rest.length < 4 + Reader.announced rest ∧
            ∃ later, cursor.Fails later .valuePastEnd 4))) ∧
    ∃ calls, 4 * calls ≤ data.length + 4 ∧ (Cursor.mk data 0).ReadsAll calls (Reader.readAll data) := by
  refine ⟨fun calls => ?_, (Stands.start data).exists_readsAll⟩
  intro cursor
  obtain ⟨rest, hstands⟩ := (Stands.start data).after calls
  have hstands : cursor.Stands data rest := hstands
  have hsplit : data = data.take cursor.position ++ rest := by
    rw [← hstands.drop_eq, List.take_append_drop]
  have hposition : cursor.position = (data.take cursor.position).length := by
    rw [List.length_take, Nat.min_eq_left hstands.position_le]
  exact ⟨data.take cursor.position, rest, hsplit, hstands.data_eq, hposition, hstands.remaining_eq,
    hstands.size_eq, hstands.isEmpty_iff, ⟨_, hstands.peekTag?_eq, Reader.peekTag?_eq_none_iff⟩,
    hstands.reads_or_fails⟩

end Cursor

end GroupChat
