import GroupChat.Proofs.RecordStreams
import GroupChat.Record.Appending

/-!
# A call that fails has written nothing

A record is appended in three parts. The first of them is appended only once nothing can go wrong with the
others, so that no part of a record is ever left behind. Main statement: after any calls, what is written is
what the calls that succeeded have written, one after the other.
-/

namespace GroupChat

namespace Appending

variable {tag : UInt16} {value : Bytes}

/-- An encoding is appended as a whole, or it fails and nothing is appended. -/
def whole (written : Bytes) : Except WriteError Bytes → Except WriteError Unit × Bytes
  | .error error => (.error error, written)
  | .ok content => (.ok (), written ++ content)

theorem run_raw (content written : Bytes) : (raw content).run written = (.ok (), written ++ content) := rfl

theorem run_raw_bind (content written : Bytes) (rest : Unit → Appending Unit) :
    (raw content >>= rest).run written = (rest ()).run (written ++ content) := rfl

/-- Encoding by itself appends nothing. -/
theorem run_encode_bind {number width : Nat} {content : Bytes}
    (hencode : Integer.encode number width = .ok content) (written : Bytes) (rest : Bytes → Appending Unit) :
    ((Integer.encode number width : Appending Bytes) >>= rest).run written = (rest content).run written := by
  rw [hencode]
  rfl

/-- Once the length is checked, neither of the integers in the header can fail. -/
theorem run_record_of_fits (hfits : (Record.mk tag value).Fits) (written : Bytes) :
    (record tag value).run written = (.ok (), written ++ (Record.mk tag value).layout) := by
  have hlong : ¬Record.maxValueSize < value.length := Nat.not_lt.2 hfits
  have hwidth : 2 ≤ Integer.maxWidth := by decide
  have htag := Integer.encode_of_lt hwidth (Record.tag_lt_capacity ⟨tag, value⟩)
  have hlength := Integer.encode_of_lt hwidth hfits.length_lt_capacity
  calc
    (record tag value).run written
      = (do
          raw (← Integer.encode tag.toNat 2)
          raw (← Integer.encode value.length 2)
          raw value : Appending Unit).run written := by
        rw [record, if_neg hlong]
    _ = (.ok (), ((written ++ Integer.bigEndian 2 tag.toNat) ++ Integer.bigEndian 2 value.length) ++ value) := by
        rw [run_encode_bind htag, run_raw_bind, run_encode_bind hlength, run_raw_bind, run_raw]
    _ = (.ok (), written ++ (Record.mk tag value).layout) := by
        simp only [Record.layout, List.append_assoc]

theorem run_record_of_not_fits (hfits : ¬(Record.mk tag value).Fits) (written : Bytes) :
    (record tag value).run written = (.error .valueTooLong, written) := by
  have hlong : Record.maxValueSize < value.length := Nat.not_le.1 hfits
  rw [record, if_pos hlong]
  rfl

/-- Part by part, a record is appended as it is encoded at once. -/
theorem run_record (tag : UInt16) (value written : Bytes) :
    (record tag value).run written = whole written (Record.mk tag value).encode := by
  by_cases hfits : (Record.mk tag value).Fits
  · rw [run_record_of_fits hfits, Record.encode_of_fits hfits, whole]
  · rw [run_record_of_not_fits hfits, Record.encode_of_not_fits hfits, whole]

theorem run_integer (tag : UInt16) (number width : Nat) (written : Bytes) :
    (integer tag number width).run written = whole written (WriteStep.integer tag number width).encode := by
  cases hencode : Integer.encode number width with
  | error error =>
      rw [integer, WriteStep.encode, hencode]
      rfl
  | ok value =>
      rw [integer, run_encode_bind hencode, run_record, WriteStep.encode, hencode]
      rfl

end Appending

namespace WriteCall

def step : WriteCall → WriteStep
  | .write tag value => .record ⟨tag, value⟩
  | .put item => .record item
  | .integer tag number width => .integer tag number width
  | .raw content => .raw content

/-- The value of a record is too long, or an integer has no room. -/
def Refused : WriteCall → Prop
  | .write _ value => 65535 < value.length
  | .put item => 65535 < item.value.length
  | .integer _ number width => 8 < width ∨ Integer.capacity width ≤ number
  | .raw _ => False

instance : DecidablePred Refused
  | .write _ value => inferInstanceAs (Decidable (65535 < value.length))
  | .put item => inferInstanceAs (Decidable (65535 < item.value.length))
  | .integer _ number width => inferInstanceAs (Decidable (8 < width ∨ Integer.capacity width ≤ number))
  | .raw _ => inferInstanceAs (Decidable False)

def record? : WriteCall → Option Record
  | .write tag value => some ⟨tag, value⟩
  | .put item => some item
  | .integer tag number width => some ⟨tag, Integer.bigEndian width number⟩
  | .raw _ => none

def layout : WriteCall → Bytes
  | .write tag value => (Record.mk tag value).layout
  | .put item => item.layout
  | .integer tag number width => (Record.mk tag (Integer.bigEndian width number)).layout
  | .raw content => content

def accepted (calls : List WriteCall) : List WriteCall := calls.filter fun call => ¬call.Refused

variable {call : WriteCall} {calls : List WriteCall}

theorem run_append_eq (call : WriteCall) (written : Bytes) :
    call.append.run written = Appending.whole written call.step.encode := by
  cases call with
  | write tag value => exact Appending.run_record tag value written
  | put item => exact Appending.run_record item.tag item.value written
  | integer tag number width => exact Appending.run_integer tag number width written
  | raw content => rfl

theorem encode_of_refused (hrefused : call.Refused) : ∃ error, call.step.encode = .error error := by
  cases call with
  | write tag value => exact ⟨_, Record.encode_of_not_fits (Nat.not_le.2 hrefused)⟩
  | put item => exact ⟨_, Record.encode_of_not_fits (Nat.not_le.2 hrefused)⟩
  | integer tag number width =>
      have hencode : ∃ error, Integer.encode number width = .error error := by
        rw [Integer.encode]
        split
        · exact ⟨_, rfl⟩
        · rename_i hwidth
          rw [if_neg (Nat.not_lt.2 (hrefused.resolve_left hwidth))]
          exact ⟨_, rfl⟩
      obtain ⟨error, herror⟩ := hencode
      refine ⟨error, ?_⟩
      rw [step, WriteStep.encode, herror]
      rfl
  | raw content => exact hrefused.elim

theorem fits_bigEndian (tag : UInt16) (number : Nat) {width : Nat} (hwidth : width ≤ 8) :
    (Record.mk tag (Integer.bigEndian width number)).Fits := by
  rw [Record.Fits, Integer.length_bigEndian]
  exact Nat.le_trans hwidth (by decide)

theorem encode_of_not_refused (hrefused : ¬call.Refused) : call.step.encode = .ok call.layout := by
  cases call with
  | write tag value => exact Record.encode_of_fits (Nat.not_lt.1 hrefused)
  | put item => exact Record.encode_of_fits (Nat.not_lt.1 hrefused)
  | integer tag number width =>
      obtain ⟨hwidth, hnumber⟩ := not_or.1 hrefused
      rw [step, WriteStep.encode, Integer.encode_of_lt (Nat.not_lt.1 hwidth) (Nat.not_le.1 hnumber)]
      exact Record.encode_of_fits (fits_bigEndian tag number (Nat.not_lt.1 hwidth))
  | raw content => rfl

/-- A call fails and leaves what is written as it is, or it appends its layout. -/
theorem run_append_cases (call : WriteCall) (written : Bytes) :
    (call.Refused ∧ ∃ error, call.append.run written = (.error error, written)) ∨
      ¬call.Refused ∧ call.append.run written = (.ok (), written ++ call.layout) := by
  rw [run_append_eq]
  by_cases hrefused : call.Refused
  · obtain ⟨error, herror⟩ := encode_of_refused hrefused
    rw [herror]
    exact Or.inl ⟨hrefused, error, rfl⟩
  · rw [encode_of_not_refused hrefused]
    exact Or.inr ⟨hrefused, rfl⟩

theorem run_cons (call : WriteCall) (calls : List WriteCall) (written : Bytes) :
    run (call :: calls) written =
      ((call.append.run written).1.map (fun _ => (call.append.run written).2.length) ::
          (run calls (call.append.run written).2).1,
        (run calls (call.append.run written).2).2) :=
  rfl

theorem run_append (first second : List WriteCall) (written : Bytes) :
    run (first ++ second) written =
      ((run first written).1 ++ (run second (run first written).2).1,
        (run second (run first written).2).2) := by
  induction first generalizing written with
  | nil => rfl
  | cons call first ih => rw [List.cons_append, run_cons, run_cons, ih, List.cons_append]

theorem length_run (calls : List WriteCall) (written : Bytes) :
    (run calls written).1.length = calls.length := by
  induction calls generalizing written with
  | nil => rfl
  | cons call calls ih => rw [run_cons, List.length_cons, List.length_cons, ih]

/-- Call by call, the same is written as by a writer that encodes each of them at once. -/
theorem run_eq_writer_run (calls : List WriteCall) (written : Bytes) :
    run calls written =
      (((Writer.mk written).run (calls.map step)).1, ((Writer.mk written).run (calls.map step)).2.bytes) := by
  induction calls generalizing written with
  | nil => rfl
  | cons call calls ih =>
      rw [run_cons, ih, List.map_cons, Writer.run_cons, run_append_eq, Writer.step]
      cases call.step.encode with
      | error error => rfl
      | ok content => rfl

theorem run_snd (calls : List WriteCall) (written : Bytes) :
    (run calls written).2 = written ++ (accepted calls).flatMap layout := by
  induction calls generalizing written with
  | nil => exact (List.append_nil written).symm
  | cons call calls ih =>
      rw [run_cons, ih, accepted, accepted]
      rcases call.run_append_cases written with ⟨hrefused, error, hrun⟩ | ⟨hrefused, hrun⟩
      · rw [hrun, List.filter_cons_of_neg (by simpa using hrefused)]
      · rw [hrun, List.filter_cons_of_pos (by simpa using hrefused), List.flatMap_cons, List.append_assoc]

theorem exists_record_of_not_refused (hrefused : ¬call.Refused) (hraw : ∀ content, call ≠ .raw content) :
    ∃ record, call.record? = some record ∧ record.Fits ∧ call.layout = record.layout := by
  cases call with
  | write tag value => exact ⟨_, rfl, Nat.not_lt.1 hrefused, rfl⟩
  | put item => exact ⟨_, rfl, Nat.not_lt.1 hrefused, rfl⟩
  | integer tag number width =>
      exact ⟨_, rfl, fits_bigEndian tag number (Nat.not_lt.1 (not_or.1 hrefused).1), rfl⟩
  | raw content => exact absurd rfl (hraw content)

/-- Where no bytes are written as they are, the calls that succeed write one record each. -/
theorem stream_accepted (hraw : ∀ content, .raw content ∉ calls) :
    Record.Stream ((accepted calls).filterMap record?) ((accepted calls).flatMap layout) := by
  induction calls with
  | nil => exact Record.stream_nil_iff.2 rfl
  | cons call calls ih =>
      have hstream := ih fun content hmem => hraw content (List.mem_cons_of_mem call hmem)
      by_cases hrefused : call.Refused
      · rw [accepted, List.filter_cons_of_neg (by simpa using hrefused)]
        exact hstream
      · obtain ⟨record, hrecord, hfits, hlayout⟩ := exists_record_of_not_refused hrefused
          fun content heq => hraw content (heq ▸ List.mem_cons_self)
        rw [accepted, List.filter_cons_of_pos (by simpa using hrefused), List.filterMap_cons_some hrecord,
          List.flatMap_cons, hlayout]
        exact Record.stream_cons_iff.2 ⟨hfits, _, rfl, hstream⟩

/-- **Writing.** Whatever calls were made before, a call fails if and only if the value of its record is too
long or its integer has no room, and then what is written stays as it was. Otherwise it appends its layout, and
gives the size after it. So what is written after any calls is what those that succeeded have written, in their
order. If no bytes were written as they are, it is read again as the records of these calls. -/
theorem failed_calls_write_nothing :
    (∀ earlier call later,
      let before := (run earlier []).2
      let after := (run (earlier ++ [call]) []).2
      ∃ outcome, (run (earlier ++ call :: later) []).1[earlier.length]? = some outcome ∧
        ((∃ error, outcome = .error error) ↔ call.Refused) ∧
        ((∃ error, outcome = .error error) → after = before) ∧
        ∀ size, outcome = .ok size → after = before ++ call.layout ∧ size = after.length) ∧
    (∀ calls, (run calls []).1.length = calls.length ∧
      (run calls []).2 = (accepted calls).flatMap layout) ∧
    ∀ calls, (∀ content, .raw content ∉ calls) →
      Reader.readAll (run calls []).2 = .ok ((accepted calls).filterMap record?) := by
  refine ⟨fun earlier call later => ?_, fun calls => ⟨length_run calls [], run_snd calls []⟩,
    fun calls hraw => ?_⟩
  · intro before after
    have hlength := length_run earlier []
    have hafter : after = (call.append.run before).2 := by
      change (run (earlier ++ [call]) []).2 = _
      rw [run_append]
      rfl
    have houtcome : (run (earlier ++ call :: later) []).1[earlier.length]? =
        some ((call.append.run before).1.map fun _ => (call.append.run before).2.length) := by
      rw [run_append, List.getElem?_append_right (Nat.le_of_eq hlength), hlength, Nat.sub_self, run_cons]
      rfl
    refine ⟨_, houtcome, ?_⟩
    rw [hafter]
    rcases call.run_append_cases before with ⟨hrefused, error, hrun⟩ | ⟨hrefused, hrun⟩
    · rw [hrun]
      exact ⟨iff_of_true ⟨error, rfl⟩ hrefused, fun _ => rfl, by rintro size ⟨⟩⟩
    · rw [hrun]
      refine ⟨iff_of_false (by rintro ⟨error, ⟨⟩⟩) hrefused, by rintro ⟨error, ⟨⟩⟩, ?_⟩
      rintro size ⟨⟩
      exact ⟨rfl, rfl⟩
  · rw [run_snd, List.nil_append, Reader.readAll_eq_ok_iff]
    exact stream_accepted hraw

/-- An integer that has no room, one that is too wide, and a value that is too long, between two records. -/
theorem records_around_failed_calls :
    let calls : List WriteCall :=
      [.integer 1 255 1, .integer 1 256 1, .integer 1 0 9, .write 2 (List.replicate 65536 7), .put ⟨3, [8]⟩]
    (∀ content, .raw content ∉ calls) ∧
      Reader.readAll (run calls []).2 = .ok [⟨1, [255]⟩, ⟨3, [8]⟩] := by
  intro calls
  have hraw : ∀ content, .raw content ∉ calls := by
    simp only [calls, List.mem_cons, reduceCtorEq, List.not_mem_nil, or_self, not_false_eq_true, implies_true]
  have hlong : (WriteCall.write 2 (List.replicate 65536 7)).Refused := by
    rw [Refused, List.length_replicate]
    decide
  have haccepted : accepted calls = [.integer 1 255 1, .put ⟨3, [8]⟩] := by
    dsimp only [calls]
    generalize WriteCall.write 2 (List.replicate 65536 7) = long at hlong
    rw [accepted, List.filter_cons_of_pos (by decide), List.filter_cons_of_neg (by decide),
      List.filter_cons_of_neg (by decide), List.filter_cons_of_neg (by simpa using hlong),
      List.filter_cons_of_pos (by decide), List.filter_nil]
  obtain ⟨-, -, hread⟩ := failed_calls_write_nothing
  refine ⟨hraw, ?_⟩
  rw [hread calls hraw, haccepted]
  rfl

end WriteCall

end GroupChat
