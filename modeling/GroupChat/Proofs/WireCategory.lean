import GroupChat.Proofs.SummaryFields
import GroupChat.Proofs.WireRoundTrip

/-!
# The category of a text and of its summary

Content may name its category more than once. Whoever sorts wire texts goes by the first record that names
one, and a summary goes by the last. Main statement: the two agree if and only if both of these records
mean data, or neither does.
-/

namespace GroupChat

namespace Greet

namespace Summary

variable {notes : Notes} {records : List Record} {summary : Summary}

theorem category_of_conclude_eq_ok (hsummary : notes.conclude = .ok summary) :
    notes.category = some summary.category.code ∧
      (summary.category = .greet ∨ summary.category = .data) := by
  unfold Notes.conclude at hsummary
  split at hsummary
  · rename_i hgreet
    split at hsummary
    · cases hsummary
    · cases hsummary
      exact ⟨hgreet, Or.inl rfl⟩
  · split at hsummary
    · rename_i hdata
      cases hsummary
      exact ⟨hdata, Or.inr rfl⟩
    · cases hsummary

theorem exists_byte_of_mem_values {value : Bytes} (hmeasured : ∀ record ∈ records, Measured record)
    (hmem : value ∈ Field.category.values records) : ∃ byte, value = [byte] :=
  List.length_eq_one_iff.1 (measured_record_iff.1 (hmeasured _ (Field.mem_values_iff.1 hmem)) 1 rfl)

/-- The last record that names a category decides, and it has to name one that has summaries. -/
theorem category_of_ofRecords_eq_ok (hsummary : ofRecords records = .ok summary) :
    ∃ byte : UInt8, Field.category.value? records = some [byte] ∧
      summary.category.code = byte.toNat ∧
      (summary.category = .greet ∨ summary.category = .data) := by
  obtain ⟨hmeasured, hconclude⟩ := ofRecords_eq_ok_iff.1 hsummary
  obtain ⟨hcategory, hkinds⟩ := category_of_conclude_eq_ok hconclude
  obtain ⟨value, hvalue, hcode⟩ := Option.map_eq_some_iff.1 hcategory
  obtain ⟨byte, rfl⟩ := exists_byte_of_mem_values hmeasured (List.mem_of_getLast? hvalue)
  rw [Integer.ofBigEndian_singleton] at hcode
  exact ⟨byte, hvalue, hcode.symm, hkinds⟩

theorem eq_data_iff_of_code {byte : UInt8} {category : Category} (hcode : category.code = byte.toNat) :
    category = .data ↔ byte = 3 := by
  rw [← UInt8.toNat_inj, ← hcode]
  cases category <;> decide

end Summary

end Greet

namespace Wire

open Greet

variable {records : List Record} {text content value : Bytes} {category : Category}

theorem categoryOf_of_parse_eq_ok (hparse : parse text = .ok (category, content))
    (hcategory : category = .greet ∨ category = .data) : categoryOf content = .ok category := by
  unfold parse at hparse
  split at hparse
  · cases hparse
    simp at hcategory
  · split at hparse
    · cases hparse
      simp at hcategory
    · split at hparse
      · obtain ⟨decoded, -, hrest⟩ := bind_eq_ok_iff.1 hparse
        obtain ⟨found, hfound, hresult⟩ := bind_eq_ok_iff.1 hrest
        cases hresult
        exact mapError_eq_ok_iff.1 hfound
      · split at hparse
        · cases hparse
          simp at hcategory
        · cases hparse

/-- The first record that names a category decides. -/
theorem categoryOf_of_head? {byte : UInt8} (hstream : Record.Stream records content)
    (hhead : (Field.category.values records).head? = some [byte]) :
    categoryOf content = .ok (if byte = 3 then .data else .greet) := by
  rw [Field.values, List.head?_map, List.head?_filter] at hhead
  obtain ⟨record, hfind, hvalue⟩ := Option.map_eq_some_iff.1 hhead
  obtain ⟨htag, hfirst⟩ := hstream.comesFirst_of_find? hfind
  rw [Field.eq_record_of_tag htag, hvalue] at hfirst
  have hcode : byte.toNat = Category.data.code ↔ byte = 3 := UInt8.toNat_inj (b := 3)
  rw [categoryOf_of_comesFirst hfirst, fixedWidth_one_eq_ok_iff.2 rfl]
  exact congrArg Except.ok (if_congr hcode rfl rfl)

/-- **The category of a text and of its summary.** If a text brings content that has a summary, then the
content is made up of records, some of which name a category. The text is taken for data if and only if the
first of them means data, and its summary is one of data if and only if the last of them does. So the two
agree if and only if both mean data or neither does, and they do if only one record names a category. -/
theorem categories_agree_iff {summary : Summary} (hparse : parse text = .ok (category, content))
    (hcategory : category = .greet ∨ category = .data)
    (hsummary : Summary.ofContent content = .ok summary) :
    ∃ records first last, Record.Stream records content ∧
      (Field.category.values records).head? = some first ∧
      (Field.category.values records).getLast? = some last ∧
      (category = .data ↔ first = [3]) ∧ (summary.category = .data ↔ last = [3]) ∧
      (summary.category = category ↔ (first = [3] ↔ last = [3])) ∧
      ((Field.category.values records).length = 1 → summary.category = category) := by
  obtain ⟨records, hstream, hrecords⟩ := Summary.ofContent_eq_ok_iff.1 hsummary
  obtain ⟨hmeasured, -⟩ := Summary.ofRecords_eq_ok_iff.1 hrecords
  obtain ⟨lastByte, hlast, hcode, hkinds⟩ := Summary.category_of_ofRecords_eq_ok hrecords
  have hmem : [lastByte] ∈ Field.category.values records := List.mem_of_getLast? hlast
  obtain ⟨first, hfirst⟩ : ∃ first, (Field.category.values records).head? = some first :=
    ⟨_, List.head?_eq_some_head (List.ne_nil_of_mem hmem)⟩
  obtain ⟨firstByte, rfl⟩ := Summary.exists_byte_of_mem_values hmeasured (List.mem_of_head? hfirst)
  have htext : category = .data ↔ ([firstByte] : Bytes) = [3] := by
    have hfound := categoryOf_of_parse_eq_ok hparse hcategory
    rw [categoryOf_of_head? hstream hfirst, Except.ok.injEq] at hfound
    rw [← hfound, List.singleton_inj]
    by_cases hdata : firstByte = 3
    · rw [if_pos hdata]
      exact iff_of_true rfl hdata
    · rw [if_neg hdata]
      exact iff_of_false (by decide) hdata
  have hsummed : summary.category = .data ↔ ([lastByte] : Bytes) = [3] := by
    rw [Summary.eq_data_iff_of_code hcode, List.singleton_inj]
  have hagree : summary.category = category ↔
      (([firstByte] : Bytes) = [3] ↔ ([lastByte] : Bytes) = [3]) := by
    rw [← htext, ← hsummed]
    rcases hcategory with rfl | rfl <;> rcases hkinds with hkind | hkind <;> simp [hkind]
  refine ⟨records, _, _, hstream, hfirst, hlast, htext, hsummed, hagree, fun hlength => ?_⟩
  obtain ⟨only, honly⟩ := List.length_eq_one_iff.1 hlength
  have hsame : ([firstByte] : Bytes) = [lastByte] := by
    rw [Field.value?] at hlast
    rw [honly] at hfirst hlast
    exact Option.some.inj (hfirst.symm.trans hlast)
  rw [hagree, hsame]

/-- Of three records that name a category the first and the last both mean data, so the one between them
does not matter. -/
theorem categories_agree_around_another :
    let records : List Record :=
      [Field.category.record [3], Field.category.record [2], Field.category.record [3]]
    let content := records.flatMap Record.layout
    ∃ summary, parse (encode content) = .ok (.data, content) ∧
      Summary.ofContent content = .ok summary ∧ summary.category = .data := by
  intro records content
  have hstream : Record.Stream records content := ⟨by decide, rfl⟩
  have hparse : parse (encode content) = .ok (.data, content) := by
    rw [parse_encode, categoryOf_of_head? hstream rfl]
    rfl
  have hsummary := Summary.ofContent_eq_ok_iff.2 ⟨records, hstream, rfl⟩
  obtain ⟨read, first, last, hread, hfirst, hlast, -, -, hagree, -⟩ :=
    categories_agree_iff hparse (Or.inr rfl) hsummary
  cases (Reader.readAll_eq_ok_iff.2 hread).symm.trans (Reader.readAll_eq_ok_iff.2 hstream)
  cases hfirst
  cases hlast
  exact ⟨_, hparse, hsummary, hagree.2 Iff.rfl⟩

/-- Content that names first greet and then data is taken for greet, and its summary is one of data. -/
theorem categories_may_differ :
    let records : List Record := [Field.category.record [2], Field.category.record [3]]
    let content := records.flatMap Record.layout
    ∃ summary, parse (encode content) = .ok (.greet, content) ∧
      Summary.ofContent content = .ok summary ∧ summary.category ≠ .greet := by
  intro records content
  have hstream : Record.Stream records content := ⟨by decide, rfl⟩
  have hparse : parse (encode content) = .ok (.greet, content) := by
    rw [parse_encode, categoryOf_of_head? hstream rfl]
    rfl
  have hsummary := Summary.ofContent_eq_ok_iff.2 ⟨records, hstream, rfl⟩
  exact ⟨_, hparse, hsummary, by decide⟩

end Wire

end GroupChat
