import GroupChat.Proofs.Records

/-!
# The first record with a tag

Looking for a record stops at the first one with its tag, and what comes after it is not read. Main
statements: `Reader.firstTagged?_eq_none_iff` and `Reader.firstTagged?_eq_some_iff`.
-/

namespace GroupChat

namespace Record

variable {tag : UInt16} {record other : Record} {records : List Record} {data rest : Bytes}

/-- The data is made up of records, and none of them has the tag. -/
def Lacks (tag : UInt16) (data : Bytes) : Prop :=
  ∃ records, Stream records data ∧ ∀ record ∈ records, record.tag ≠ tag

/-- The record is the first with its tag. What comes after it need not be made up of records. -/
def ComesFirst (record : Record) (data : Bytes) : Prop :=
  ∃ earlier front rest, Stream (earlier ++ [record]) front ∧ data = front ++ rest ∧
    ∀ other ∈ earlier, other.tag ≠ record.tag

theorem layout_append_inj {rest' : Bytes} (hfits : record.Fits) (hfits' : other.Fits)
    (heq : record.layout ++ rest = other.layout ++ rest') : record = other ∧ rest = rest' := by
  have hnext : Reader.next (record.layout ++ rest) = (.ok record, rest) :=
    Reader.next_eq_ok_iff.2 ⟨hfits, rfl⟩
  rw [heq, Reader.next_eq_ok_iff.2 ⟨hfits', rfl⟩] at hnext
  cases hnext
  exact ⟨rfl, rfl⟩

theorem lacks_nil (tag : UInt16) : Lacks tag [] := ⟨[], stream_nil_iff.2 rfl, nofun⟩

theorem ComesFirst.exists_layout_append (hfirst : record.ComesFirst data) :
    ∃ other rest, Fits other ∧ data = other.layout ++ rest := by
  obtain ⟨_ | ⟨first, earlier⟩, front, behind, hstream, rfl, -⟩ := hfirst
  all_goals
    obtain ⟨hfits, later, rfl, -⟩ := stream_cons_iff.1 hstream
    exact ⟨_, _, hfits, List.append_assoc ..⟩

theorem not_comesFirst_nil (record : Record) : ¬record.ComesFirst [] := by
  intro hfirst
  obtain ⟨other, rest, -, hnil⟩ := hfirst.exists_layout_append
  exact other.layout_ne_nil (List.append_eq_nil_iff.1 hnil.symm).1

theorem lacks_layout_append_iff (hfits : other.Fits) :
    Lacks tag (other.layout ++ rest) ↔ other.tag ≠ tag ∧ Lacks tag rest := by
  constructor
  · rintro ⟨records, hstream, htags⟩
    cases records with
    | nil =>
        have hnil := stream_nil_iff.1 hstream
        exact absurd (List.append_eq_nil_iff.1 hnil).1 other.layout_ne_nil
    | cons record records =>
        obtain ⟨hrecord, later, hlayout, hlater⟩ := stream_cons_iff.1 hstream
        obtain ⟨rfl, rfl⟩ := layout_append_inj hfits hrecord hlayout
        obtain ⟨htag, htags⟩ := List.forall_mem_cons.1 htags
        exact ⟨htag, records, hlater, htags⟩
  · rintro ⟨htag, records, hstream, htags⟩
    exact ⟨other :: records, stream_cons_iff.2 ⟨hfits, rest, rfl, hstream⟩,
      List.forall_mem_cons.2 ⟨htag, htags⟩⟩

theorem comesFirst_layout_append_iff (hfits : other.Fits) :
    record.ComesFirst (other.layout ++ rest) ↔
      other = record ∨ other.tag ≠ record.tag ∧ record.ComesFirst rest := by
  constructor
  · rintro ⟨earlier, front, behind, hstream, hdata, htags⟩
    cases earlier with
    | nil =>
        obtain ⟨hrecord, later, rfl, -⟩ := stream_cons_iff.1 hstream
        rw [List.append_assoc] at hdata
        exact Or.inl (layout_append_inj hfits hrecord hdata).1
    | cons first earlier =>
        obtain ⟨hfirst, later, rfl, hlater⟩ := stream_cons_iff.1 hstream
        rw [List.append_assoc] at hdata
        obtain ⟨rfl, rfl⟩ := layout_append_inj hfits hfirst hdata
        obtain ⟨htag, htags⟩ := List.forall_mem_cons.1 htags
        exact Or.inr ⟨htag, earlier, later, behind, hlater, rfl, htags⟩
  · rintro (rfl | ⟨htag, earlier, front, behind, hstream, rfl, htags⟩)
    · exact ⟨[], other.layout, rest, stream_cons_iff.2 ⟨hfits, [], (List.append_nil _).symm,
        stream_nil_iff.2 rfl⟩, rfl, nofun⟩
    · exact ⟨other :: earlier, other.layout ++ front, behind,
        stream_cons_iff.2 ⟨hfits, front, rfl, hstream⟩, (List.append_assoc ..).symm,
        List.forall_mem_cons.2 ⟨htag, htags⟩⟩

theorem stream_append_iff {later : List Record} :
    Stream (records ++ later) data ↔
      ∃ front rest, data = front ++ rest ∧ Stream records front ∧ Stream later rest := by
  constructor
  · rintro ⟨hfits, rfl⟩
    obtain ⟨hrecords, hlater⟩ := List.forall_mem_append.1 hfits
    exact ⟨_, _, List.flatMap_append, ⟨hrecords, rfl⟩, hlater, rfl⟩
  · rintro ⟨front, rest, rfl, ⟨hrecords, rfl⟩, hlater, rfl⟩
    exact ⟨List.forall_mem_append.2 ⟨hrecords, hlater⟩, List.flatMap_append.symm⟩

/-- The first of the records with a tag comes first in the data. -/
theorem Stream.comesFirst_of_find? (hstream : Stream records data)
    (hfind : records.find? (·.tag == tag) = some record) :
    record.tag = tag ∧ record.ComesFirst data := by
  obtain ⟨htag, earlier, later, rfl, hearlier⟩ := List.find?_eq_some_iff_append.1 hfind
  have htag : record.tag = tag := beq_iff_eq.1 htag
  -- Only the records up to this one are put in front; those behind it are just bytes.
  rw [List.append_cons] at hstream
  obtain ⟨front, rest, hdata, hfront, -⟩ := stream_append_iff.1 hstream
  refine ⟨htag, earlier, front, rest, hfront, hdata, fun other hmem hother => ?_⟩
  have hdiffers := hearlier other hmem
  rw [hother, htag, BEq.rfl] at hdiffers
  cases hdiffers

end Record

namespace Reader

variable {tag : UInt16} {record : Record} {data : Bytes}

theorem firstTagged?_eq_none_iff : firstTagged? tag data = .ok none ↔ Record.Lacks tag data := by
  fun_induction firstTagged? tag data with
  | case1 data hempty =>
      rw [List.isEmpty_iff.1 hempty]
      exact iff_of_true rfl (Record.lacks_nil tag)
  | case2 data hdata error rest hnext =>
      refine iff_of_false (by rintro ⟨⟩) ?_
      rintro ⟨records, hstream, -⟩
      obtain ⟨record, later, -, hnext', -⟩ := (stream_iff_of_next hdata).1 hstream
      rw [hnext] at hnext'
      cases hnext'
  | case3 data hdata other rest hnext htag =>
      obtain ⟨hfits, rfl⟩ := next_eq_ok_iff.1 hnext
      rw [Record.lacks_layout_append_iff hfits]
      exact iff_of_false (by rintro ⟨⟩) fun hlacks => hlacks.1 htag
  | case4 data hdata other rest hnext htag ih =>
      obtain ⟨hfits, rfl⟩ := next_eq_ok_iff.1 hnext
      rw [ih, Record.lacks_layout_append_iff hfits]
      exact (and_iff_right htag).symm

theorem firstTagged?_eq_some_iff :
    firstTagged? tag data = .ok (some record) ↔ record.tag = tag ∧ record.ComesFirst data := by
  fun_induction firstTagged? tag data with
  | case1 data hempty =>
      rw [List.isEmpty_iff.1 hempty]
      exact iff_of_false (by rintro ⟨⟩) fun hfirst => record.not_comesFirst_nil hfirst.2
  | case2 data hdata error rest hnext =>
      refine iff_of_false (by rintro ⟨⟩) ?_
      rintro ⟨-, hfirst⟩
      obtain ⟨other, later, hfits, rfl⟩ := hfirst.exists_layout_append
      rw [next_eq_ok_iff.2 ⟨hfits, rfl⟩] at hnext
      cases hnext
  | case3 data hdata other rest hnext htag =>
      obtain ⟨hfits, rfl⟩ := next_eq_ok_iff.1 hnext
      rw [Record.comesFirst_layout_append_iff hfits]
      constructor
      · rintro ⟨⟩
        exact ⟨htag, Or.inl rfl⟩
      · rintro ⟨hrecord, rfl | ⟨hother, -⟩⟩
        · rfl
        · exact absurd (htag.trans hrecord.symm) hother
  | case4 data hdata other rest hnext htag ih =>
      obtain ⟨hfits, rfl⟩ := next_eq_ok_iff.1 hnext
      rw [ih, Record.comesFirst_layout_append_iff hfits]
      refine and_congr_right fun hrecord => ?_
      rw [hrecord]
      constructor
      · exact fun hfirst => Or.inr ⟨htag, hfirst⟩
      · rintro (rfl | ⟨-, hfirst⟩)
        · exact absurd hrecord htag
        · exact hfirst

end Reader

end GroupChat
