import GroupChat.Proofs.Records

/-!
# Record lists and byte strings

Writing and reading records undo each other. Main statement: the byte strings that can be read to the end
are exactly those that are written for lists of records, each for one list, and what stands behind one of
them is read as if it stood alone.
-/

namespace GroupChat

namespace Reader

variable {σ ε : Type} {onError : ReadError → ε} {step : σ → Record → Except ε σ} {state : σ}
  {record : Record} {records : List Record} {data front rest : Bytes}

/-- Behind records that are read, reading goes on from the state that they lead to. -/
theorem readInto_stream_append (hstream : Record.Stream records front) :
    readInto onError step state (front ++ rest) =
      (records.foldlM step state).bind fun later => readInto onError step later rest := by
  induction records generalizing front state with
  | nil =>
      rw [Record.stream_nil_iff.1 hstream, List.nil_append]
      rfl
  | cons record records ih =>
      obtain ⟨hfits, later, rfl, hlater⟩ := Record.stream_cons_iff.1 hstream
      have hdata : ¬(record.layout ++ (later ++ rest)).isEmpty = true := by
        rw [List.isEmpty_iff, List.append_eq_nil_iff]
        exact fun hnil => record.layout_ne_nil hnil.1
      have hnext : next (record.layout ++ (later ++ rest)) = (.ok record, later ++ rest) :=
        next_eq_ok_iff.2 ⟨hfits, rfl⟩
      rw [List.append_assoc, readInto_of_not_isEmpty hdata, hnext, List.foldlM_cons]
      dsimp only
      cases step state record with
      | error error => rfl
      | ok following => exact ih hlater

theorem readAll_stream_append (hstream : Record.Stream records front) :
    readAll (front ++ rest) = (readAll rest).map (records ++ ·) := by
  rw [readAll, readInto_stream_append hstream, foldlM_push, List.nil_append]
  have hrest : readInto id (fun records record => .ok (records ++ [record])) (records ++ []) rest =
      (readAll rest).map (records ++ ·) :=
    readInto_map (fun later record => congrArg Except.ok (List.append_assoc records later [record])) [] rest
  rwa [List.append_nil] at hrest

/-- Behind a record, reading goes on as if the record were not there. -/
theorem readAll_layout_append (hfits : record.Fits) :
    readAll (record.layout ++ rest) = (readAll rest).map (record :: ·) := by
  have hstream : Record.Stream [record] record.layout :=
    Record.stream_cons_iff.2 ⟨hfits, [], (List.append_nil _).symm, Record.stream_nil_iff.2 rfl⟩
  exact readAll_stream_append hstream

end Reader

namespace Writer

variable {record : Record} {records : List Record} {data : Bytes}

/-- Writing the records one after the other fails nowhere, and this is what is written in the end. -/
structure Writes (records : List Record) (data : Bytes) : Prop where
  succeeds : ∀ outcome ∈ (run {} (records.map .record)).1, ∃ size, outcome = .ok size
  bytes : (run {} (records.map .record)).2.bytes = data

theorem step_record_of_fits (writer : Writer) (hfits : record.Fits) :
    writer.step (.record record) =
      (.ok (writer.bytes ++ record.layout).length, ⟨writer.bytes ++ record.layout⟩) := by
  rw [step, WriteStep.encode, Record.encode_of_fits hfits]
  rfl

theorem step_record_of_not_fits (writer : Writer) (hfits : ¬record.Fits) :
    writer.step (.record record) = (.error .valueTooLong, writer) := by
  rw [step, WriteStep.encode, Record.encode_of_not_fits hfits]

theorem run_cons (writer : Writer) (call : WriteStep) (calls : List WriteStep) :
    writer.run (call :: calls) =
      ((writer.step call).1 :: ((writer.step call).2.run calls).1,
        ((writer.step call).2.run calls).2) :=
  rfl

/-- The calls of a run succeed or fail each for itself. -/
theorem run_records_succeeds_iff (writer : Writer) :
    (∀ outcome ∈ (writer.run (records.map .record)).1, ∃ size, outcome = .ok size) ↔
      ∀ record ∈ records, record.Fits := by
  induction records generalizing writer with
  | nil => exact iff_of_true nofun nofun
  | cons record records ih =>
      rw [List.map_cons, run_cons, List.forall_mem_cons, List.forall_mem_cons, ih]
      refine and_congr_left' ?_
      by_cases hfits : record.Fits
      · rw [step_record_of_fits writer hfits]
        exact iff_of_true ⟨_, rfl⟩ hfits
      · rw [step_record_of_not_fits writer hfits]
        exact iff_of_false (by rintro ⟨_, ⟨⟩⟩) hfits

theorem bytes_run_records (writer : Writer) (hfits : ∀ record ∈ records, record.Fits) :
    (writer.run (records.map .record)).2.bytes = writer.bytes ++ records.flatMap Record.layout := by
  induction records generalizing writer with
  | nil => exact (List.append_nil _).symm
  | cons record records ih =>
      obtain ⟨hrecord, hrecords⟩ := List.forall_mem_cons.1 hfits
      rw [List.map_cons, run_cons, ih _ hrecords, step_record_of_fits writer hrecord, List.flatMap_cons,
        List.append_assoc]

theorem writes_iff_stream : Writes records data ↔ Record.Stream records data := by
  constructor
  · rintro ⟨hsucceeds, rfl⟩
    have hfits := (run_records_succeeds_iff _).1 hsucceeds
    exact ⟨hfits, bytes_run_records _ hfits⟩
  · rintro ⟨hfits, rfl⟩
    exact ⟨(run_records_succeeds_iff _).2 hfits, bytes_run_records _ hfits⟩

end Writer

namespace Record

/-- Data is made up of records if and only if it is cut into what is written for one record each. -/
theorem exists_stream_iff {data : Bytes} :
    (∃ records, Stream records data) ↔
      ∃ encodings : List Bytes, data = encodings.flatten ∧
        ∀ encoding ∈ encodings, ∃ record, Record.encode record = .ok encoding := by
  constructor
  · rintro ⟨records, hfits, rfl⟩
    refine ⟨records.map layout, List.flatMap_def, fun encoding hmem => ?_⟩
    obtain ⟨record, hrecord, rfl⟩ := List.mem_map.1 hmem
    exact ⟨record, encode_of_fits (hfits record hrecord)⟩
  · rintro ⟨encodings, rfl, hencodings⟩
    induction encodings with
    | nil => exact ⟨[], stream_nil_iff.2 rfl⟩
    | cons encoding encodings ih =>
        obtain ⟨⟨record, hrecord⟩, hrest⟩ := List.forall_mem_cons.1 hencodings
        obtain ⟨hfits, rfl⟩ := encode_eq_ok_iff.1 hrecord
        obtain ⟨records, hrecords⟩ := ih hrest
        exact ⟨record :: records, stream_cons_iff.2 ⟨hfits, _, rfl, hrecords⟩⟩

end Record

namespace Reader

/-- **Records and bytes determine each other.** Records whose values are not too long can be written, and
what is written for them is read as these records again. Whatever can be read is what is written for the
records that it is read as. So the data that can be read is just what is written for some records in turn,
two lists of records are never written alike, and behind data that can be read, more data is read as it
would be alone, with the same records or the same error. -/
theorem reading_inverts_writing :
    (∀ records : List Record, (∀ record ∈ records, record.value.length ≤ 65535) →
      ∃ data, Writer.Writes records data ∧ readAll data = .ok records) ∧
    (∀ data records, readAll data = .ok records → Writer.Writes records data) ∧
    (∀ data, (∃ records, readAll data = .ok records) ↔
      ∃ encodings : List Bytes, data = encodings.flatten ∧
        ∀ encoding ∈ encodings, ∃ record : Record, record.encode = .ok encoding) ∧
    (∀ first second data, Writer.Writes first data → Writer.Writes second data → first = second) ∧
    ∀ front records rest, readAll front = .ok records →
      readAll (front ++ rest) = (readAll rest).map (records ++ ·) := by
  simp only [readAll_eq_ok_iff, Writer.writes_iff_stream]
  refine ⟨fun records hlength => ?_, fun _ _ => id, fun data => Record.exists_stream_iff,
    fun first second data hfirst hsecond => ?_, fun front records rest hstream => ?_⟩
  · have hstream : Record.Stream records (records.flatMap Record.layout) := ⟨hlength, rfl⟩
    exact ⟨_, hstream, hstream⟩
  · have hread := readAll_eq_ok_iff.2 hfirst
    rw [readAll_eq_ok_iff.2 hsecond] at hread
    exact (Except.ok.inj hread).symm
  · exact readAll_stream_append hstream

/-- A record as long as one can be and an empty one, with a header behind them that is cut short. -/
theorem records_before_cut_header :
    let records : List Record := [⟨0xffff, List.replicate 65535 7⟩, ⟨0, []⟩]
    (∀ record ∈ records, record.value.length ≤ 65535) ∧
      ∃ data, Writer.Writes records data ∧ readAll data = .ok records ∧
        readAll (data ++ [0, 1, 0]) = .error .pastEnd := by
  intro records
  obtain ⟨hwrite, -, -, -, happend⟩ := reading_inverts_writing
  have hlength : ∀ record ∈ records, record.value.length ≤ 65535 := by
    refine List.forall_mem_cons.2 ⟨?_, List.forall_mem_singleton.2 (Nat.zero_le _)⟩
    exact Nat.le_of_eq List.length_replicate
  have hcut : readAll [0, 1, 0] = .error .pastEnd := by
    rw [readAll, readInto_of_not_isEmpty (by decide)]
    rfl
  obtain ⟨data, hwrites, hread⟩ := hwrite records hlength
  refine ⟨hlength, data, hwrites, hread, ?_⟩
  rw [happend data records [0, 1, 0] hread, hcut]
  rfl

end Reader

end GroupChat
