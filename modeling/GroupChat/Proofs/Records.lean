import GroupChat.Proofs.Results
import GroupChat.Record.Reader
import Mathlib.Data.List.Induction

/-!
# Writing and reading records

How records lie in a byte string. A writer lays them out in that way, and a reader finds exactly the
records that were laid out. Main statements: `Record.encodeAll_eq_ok_iff` and
`Reader.readInto_eq_ok_iff`.
-/

namespace GroupChat

namespace Integer

variable {width value : Nat}

theorem encode_of_lt (hwidth : width ≤ maxWidth) (hvalue : value < capacity width) :
    encode value width = .ok (bigEndian width value) := by
  rw [encode, if_neg (Nat.not_lt.2 hwidth), if_pos hvalue]

theorem ofBigEndian_singleton (byte : UInt8) : ofBigEndian [byte] = byte.toNat := by
  simp [ofBigEndian]

theorem ofBigEndian_lt_capacity (data : Bytes) : ofBigEndian data < capacity data.length := by
  induction data using List.reverseRecOn with
  | nil => exact Nat.one_pos
  | append_singleton data byte ih =>
      have hbyte := byte.toNat_lt
      rw [ofBigEndian_append_singleton, List.length_append, List.length_singleton, capacity_succ]
      omega

/-- The bytes that an integer is read from are the only ones of their number that it is read from. -/
theorem bigEndian_ofBigEndian (data : Bytes) : bigEndian data.length (ofBigEndian data) = data := by
  induction data using List.reverseRecOn with
  | nil => rfl
  | append_singleton data byte ih =>
      have hbyte := byte.toNat_lt
      have hrest : (ofBigEndian data * 256 + byte.toNat) / 256 = ofBigEndian data := by omega
      have hlast : UInt8.ofNat (ofBigEndian data * 256 + byte.toNat) = byte := by
        apply UInt8.toNat.inj
        rw [UInt8.toNat_ofNat']
        omega
      rw [ofBigEndian_append_singleton, List.length_append, List.length_singleton, bigEndian, hrest,
        hlast, ih]

end Integer

namespace Record

variable {record : Record} {records first second : List Record} {data front rest : Bytes}

/-- The length of the value has to go into two bytes. -/
def Fits (record : Record) : Prop := record.value.length ≤ maxValueSize

instance (record : Record) : Decidable record.Fits := inferInstanceAs (Decidable (_ ≤ _))

/-- How a record lies in a byte string. -/
def layout (record : Record) : Bytes :=
  Integer.bigEndian 2 record.tag.toNat ++ Integer.bigEndian 2 record.value.length ++ record.value

/-- The data is made up of these records, one after the other. -/
structure Stream (records : List Record) (data : Bytes) : Prop where
  fits : ∀ record ∈ records, record.Fits
  layout : data = records.flatMap Record.layout

theorem tag_lt_capacity (record : Record) : record.tag.toNat < Integer.capacity 2 := record.tag.toNat_lt

theorem Fits.length_lt_capacity (hfits : record.Fits) :
    record.value.length < Integer.capacity 2 :=
  Nat.lt_succ_of_le hfits

theorem layout_ne_nil (record : Record) : record.layout ≠ [] := by
  intro hnil
  have hlength : record.layout.length = 0 := by rw [hnil, List.length_nil]
  simp [layout] at hlength

theorem encode_of_fits (hfits : record.Fits) : record.encode = .ok record.layout := by
  have hlong : ¬maxValueSize < record.value.length := Nat.not_lt.2 hfits
  have hwidth : 2 ≤ Integer.maxWidth := by decide
  simp only [encode, if_neg hlong, Integer.encode_of_lt hwidth record.tag_lt_capacity,
    Integer.encode_of_lt hwidth hfits.length_lt_capacity]
  rfl

theorem encode_of_not_fits (hfits : ¬record.Fits) : record.encode = .error .valueTooLong := by
  have hlong : maxValueSize < record.value.length := Nat.not_le.1 hfits
  simp only [encode, if_pos hlong]
  rfl

theorem stream_nil_iff : Stream [] data ↔ data = [] := by
  constructor
  · exact fun hstream => hstream.layout
  · rintro rfl
    exact ⟨fun _ hmem => absurd hmem List.not_mem_nil, rfl⟩

theorem eq_nil_of_stream_nil (hstream : Stream records []) : records = [] := by
  cases records with
  | nil => rfl
  | cons record records =>
      exact absurd (List.append_eq_nil_iff.1 hstream.layout.symm).1 record.layout_ne_nil

theorem stream_cons_iff :
    Stream (record :: records) data ↔
      record.Fits ∧ ∃ rest, data = record.layout ++ rest ∧ Stream records rest := by
  constructor
  · intro hstream
    exact ⟨hstream.fits record List.mem_cons_self, _, hstream.layout,
      fun other hother => hstream.fits other (List.mem_cons_of_mem _ hother), rfl⟩
  · rintro ⟨hfits, rest, rfl, hrest⟩
    exact ⟨List.forall_mem_cons.2 ⟨hfits, hrest.fits⟩, congrArg _ hrest.layout⟩

theorem encodeAll_cons (record : Record) (records : List Record) :
    encodeAll (record :: records) = (do
      let front ← record.encode
      let rest ← encodeAll records
      return front ++ rest) := by
  simp only [encodeAll, List.mapM_cons, bind_assoc, pure_bind, List.flatten_cons]

theorem encode_eq_ok_iff : record.encode = .ok front ↔ record.Fits ∧ front = record.layout := by
  by_cases hfits : record.Fits
  · rw [encode_of_fits hfits]
    exact ⟨fun hok => ⟨hfits, (Except.ok.inj hok).symm⟩, fun hfront => congrArg _ hfront.2.symm⟩
  · rw [encode_of_not_fits hfits]
    exact iff_of_false (by rintro ⟨⟩) fun hfront => hfits hfront.1

/-- Records are written exactly if they fit, in the layout that they are read in. -/
theorem encodeAll_eq_ok_iff : encodeAll records = .ok data ↔ Stream records data := by
  induction records generalizing data with
  | nil =>
      rw [stream_nil_iff]
      exact ⟨fun hok => (Except.ok.inj hok).symm, fun hnil => congrArg _ hnil.symm⟩
  | cons record records ih =>
      simp only [encodeAll_cons, stream_cons_iff, bind_eq_ok_iff, encode_eq_ok_iff, ih]
      constructor
      · rintro ⟨_, ⟨hfits, rfl⟩, rest, hrest, ⟨⟩⟩
        exact ⟨hfits, rest, rfl, hrest⟩
      · rintro ⟨hfits, rest, rfl, hrest⟩
        exact ⟨_, ⟨hfits, rfl⟩, rest, hrest, rfl⟩

/-- Nothing is written if one of the records does not fit. -/
theorem encodeAll_of_not_fits (hlong : ∃ record ∈ records, ¬record.Fits) :
    encodeAll records = .error .valueTooLong := by
  induction records with
  | nil =>
      obtain ⟨record, hmem, -⟩ := hlong
      exact absurd hmem List.not_mem_nil
  | cons record records ih =>
      rw [encodeAll_cons]
      by_cases hfits : record.Fits
      · have hrest : ∃ record ∈ records, ¬record.Fits := by
          obtain ⟨other, hmem, hother⟩ := hlong
          rcases List.mem_cons.1 hmem with rfl | hmem
          · exact absurd hfits hother
          · exact ⟨other, hmem, hother⟩
        rw [encode_of_fits hfits, ih hrest]
        rfl
      · rw [encode_of_not_fits hfits]
        rfl

end Record

namespace Reader

variable {σ ε : Type} {onError : ReadError → ε} {step : σ → Record → Except ε σ} {state final : σ}
  {record : Record} {records : List Record} {data front rest : Bytes}

theorem take_append {count : Nat} {onShort : ReadError} (hfront : front.length = count) :
    take count onShort (front ++ rest) = (.ok front, rest) := by
  subst hfront
  simp [take]

theorem integer_bigEndian_append {width value : Nat} (hvalue : value < Integer.capacity width) :
    integer width (Integer.bigEndian width value ++ rest) = (.ok value, rest) := by
  rw [integer, take_append (Integer.length_bigEndian width value)]
  simp only [Integer.ofBigEndian_bigEndian hvalue]

theorem bigEndian_of_integer_eq_ok {width value : Nat}
    (hinteger : integer width data = (.ok value, rest)) :
    data = Integer.bigEndian width value ++ rest ∧ value < Integer.capacity width := by
  unfold integer at hinteger
  split at hinteger
  · cases hinteger
  · rename_i front later htake
    obtain ⟨rfl, rfl⟩ := take_eq_ok htake
    cases hinteger
    rw [Integer.bigEndian_ofBigEndian]
    exact ⟨rfl, Integer.ofBigEndian_lt_capacity front⟩

/-- Reading takes a record off the front of the data if and only if it was laid out there. -/
theorem next_eq_ok_iff :
    next data = (.ok record, rest) ↔ record.Fits ∧ data = record.layout ++ rest := by
  constructor
  · intro hnext
    unfold next at hnext
    split at hnext
    · cases hnext
    · rename_i tag afterTag htag
      split at hnext
      · cases hnext
      · rename_i length afterLength hlength
        split at hnext
        · cases hnext
        · rename_i value afterValue hvalue
          obtain ⟨rfl, htagLt⟩ := bigEndian_of_integer_eq_ok htag
          obtain ⟨rfl, hlengthLt⟩ := bigEndian_of_integer_eq_ok hlength
          obtain ⟨rfl, rfl⟩ := take_eq_ok hvalue
          cases hnext
          refine ⟨Nat.le_of_lt_succ hlengthLt, ?_⟩
          have htagNat : (UInt16.ofNat tag).toNat = tag := Nat.mod_eq_of_lt htagLt
          simp only [Record.layout, htagNat, List.append_assoc]
  · rintro ⟨hfits, rfl⟩
    simp only [next, Record.layout, List.append_assoc,
      integer_bigEndian_append record.tag_lt_capacity,
      integer_bigEndian_append hfits.length_lt_capacity, take_append, UInt16.ofNat_toNat]

theorem peekTag?_layout_append (record : Record) (rest : Bytes) :
    peekTag? (record.layout ++ rest) = some record.tag := by
  have htag := Integer.ofBigEndian_bigEndian record.tag_lt_capacity
  simp only [Integer.bigEndian, Integer.ofBigEndian, List.nil_append, List.cons_append, List.foldl_cons,
    List.foldl_nil, Nat.zero_mul, Nat.zero_add] at htag
  simp only [Record.layout, Integer.bigEndian, List.nil_append, List.cons_append, peekTag?, htag,
    UInt16.ofNat_toNat]

/-- Data that is made up of records begins with what the reader finds there first. -/
theorem stream_iff_of_next (hdata : ¬data.isEmpty = true) :
    Record.Stream records data ↔
      ∃ record rest later, next data = (.ok record, rest) ∧ records = record :: later ∧
        Record.Stream later rest := by
  cases records with
  | nil =>
      rw [Record.stream_nil_iff]
      exact iff_of_false (fun hnil => hdata (List.isEmpty_iff.2 hnil))
        (by rintro ⟨_, _, _, -, ⟨⟩, -⟩)
  | cons first others =>
      rw [Record.stream_cons_iff]
      constructor
      · rintro ⟨hfits, rest, hlayout, hrest⟩
        exact ⟨first, rest, others, next_eq_ok_iff.2 ⟨hfits, hlayout⟩, rfl, hrest⟩
      · rintro ⟨record, rest, later, hnext, heq, hrest⟩
        cases heq
        obtain ⟨hfits, hlayout⟩ := next_eq_ok_iff.1 hnext
        exact ⟨hfits, rest, hlayout, hrest⟩

theorem readInto_of_not_isEmpty (hdata : ¬data.isEmpty = true) :
    readInto onError step state data =
      match next data with
      | (.error error, _) => .error (onError error)
      | (.ok record, rest) =>
          (step state record).bind fun later => readInto onError step later rest := by
  rw [readInto, if_neg hdata]
  split
  · rename_i hnext
    rw [hnext]
  · rename_i record rest hnext
    rw [hnext]
    cases hstep : step state record with
    | error error => simp only [hstep, Except.bind]
    | ok later => simp only [hstep, Except.bind]

/-- Data is read to the end exactly if it is made up of records and each of them can be taken in. -/
theorem readInto_eq_ok_iff :
    readInto onError step state data = .ok final ↔
      ∃ records, Record.Stream records data ∧ records.foldlM step state = .ok final := by
  fun_induction readInto onError step state data with
  | case1 state data hempty =>
      rw [List.isEmpty_iff.1 hempty]
      constructor
      · exact fun hok => ⟨[], Record.stream_nil_iff.2 rfl, hok⟩
      · rintro ⟨records, hstream, hfold⟩
        rwa [Record.eq_nil_of_stream_nil hstream] at hfold
  | case2 state data hdata error rest hnext =>
      refine iff_of_false (by rintro ⟨⟩) ?_
      rintro ⟨records, hstream, -⟩
      obtain ⟨record, rest', -, hnext', -⟩ := (stream_iff_of_next hdata).1 hstream
      rw [hnext] at hnext'
      cases hnext'
  | case3 state data hdata record rest hnext error hstep =>
      refine iff_of_false (by rintro ⟨⟩) ?_
      rintro ⟨records, hstream, hfold⟩
      obtain ⟨record', rest', later, hnext', rfl, -⟩ := (stream_iff_of_next hdata).1 hstream
      rw [hnext] at hnext'
      cases hnext'
      rw [List.foldlM_cons, hstep] at hfold
      cases hfold
  | case4 state data hdata record rest hnext later hstep ih =>
      rw [ih]
      constructor
      · rintro ⟨records, hstream, hfold⟩
        refine ⟨record :: records,
          (stream_iff_of_next hdata).2 ⟨record, rest, records, hnext, rfl, hstream⟩, ?_⟩
        rwa [List.foldlM_cons, hstep]
      · rintro ⟨records, hstream, hfold⟩
        obtain ⟨record', rest', records', hnext', rfl, hlater⟩ := (stream_iff_of_next hdata).1 hstream
        rw [hnext] at hnext'
        cases hnext'
        rw [List.foldlM_cons, hstep] at hfold
        exact ⟨records', hlater, hfold⟩

theorem foldlM_push (earlier records : List Record) :
    records.foldlM (fun records record => .ok (records ++ [record])) earlier =
      (.ok (earlier ++ records) : Except ε (List Record)) := by
  induction records generalizing earlier with
  | nil => exact congrArg Except.ok (List.append_nil earlier).symm
  | cons record records ih =>
      rw [List.foldlM_cons]
      exact (ih (earlier ++ [record])).trans (by rw [List.append_assoc, List.singleton_append])

theorem readAll_eq_ok_iff : readAll data = .ok records ↔ Record.Stream records data := by
  simp only [readAll, readInto_eq_ok_iff, foldlM_push, List.nil_append, Except.ok.injEq]
  constructor
  · rintro ⟨_, hstream, rfl⟩
    exact hstream
  · exact fun hstream => ⟨records, hstream, rfl⟩

/-- Where reading stops, either the data is not made up of records or a record cannot be taken in. -/
theorem error_of_readInto_eq_error {error : ε}
    (herror : readInto onError step state data = .error error) :
    (∃ cause, error = onError cause) ∨ ∃ state record, step state record = .error error := by
  fun_induction readInto onError step state data with
  | case1 state data hempty => cases herror
  | case2 state data hdata cause rest hnext =>
      cases herror
      exact Or.inl ⟨cause, rfl⟩
  | case3 state data hdata record rest hnext cause hstep =>
      cases herror
      exact Or.inr ⟨state, record, hstep⟩
  | case4 state data hdata record rest hnext later hstep ih => exact ih herror

/-- Reading into a changed state comes to the same, changed in the end, if no record makes a difference. -/
theorem readInto_map {τ : Type} {change : σ → τ} {step' : τ → Record → Except ε τ}
    (hstep : ∀ state record, step' (change state) record = (step state record).map change)
    (state : σ) (data : Bytes) :
    readInto onError step' (change state) data = (readInto onError step state data).map change := by
  fun_induction readInto onError step state data with
  | case1 state data hempty =>
      rw [readInto, if_pos hempty]
      rfl
  | case2 state data hdata error rest hnext =>
      rw [readInto_of_not_isEmpty hdata, hnext]
      rfl
  | case3 state data hdata record rest hnext error herror =>
      simp only [readInto_of_not_isEmpty hdata, hnext, hstep, herror]
      rfl
  | case4 state data hdata record rest hnext later hlater ih =>
      simp only [readInto_of_not_isEmpty hdata, hnext, hstep, hlater]
      exact ih

end Reader

end GroupChat
