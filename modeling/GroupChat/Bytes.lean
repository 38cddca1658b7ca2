/-!
Byte strings. All text of this library is a byte string, because member ids, payloads and error
texts may hold any byte; they are compared and sorted as unsigned bytes.
-/

namespace GroupChat

abbrev Bytes := List UInt8

namespace Bytes

def ofString (text : String) : Bytes := text.toList.flatMap String.utf8EncodeChar

def ofNat (number : Nat) : Bytes := ofString (toString number)

/-- The part before the first zero byte, which is all that an error text keeps. -/
def untilZero (text : Bytes) : Bytes := text.takeWhile (· != 0)

/-- The rest after a leading part, if the text starts with that part. -/
def dropLeading? : (lead : Bytes) → (text : Bytes) → Option Bytes
  | [], text => some text
  | _ :: _, [] => none
  | expected :: lead, byte :: text => if byte = expected then dropLeading? lead text else none

def dropTrailing (byte : UInt8) (text : Bytes) : Bytes :=
  if text.getLast? = some byte then text.dropLast else text

/-- Where the text has this byte next, from a position on. -/
def indexFrom? (byte : UInt8) (text : Bytes) (start : Nat) : Option Nat :=
  ((text.drop start).findIdx? (· == byte)).map (start + ·)

def joined (separator : Bytes) : List Bytes → Bytes
  | [] => []
  | first :: rest => first ++ rest.flatMap (separator ++ ·)

theorem dropLeading?_eq_some_iff {lead text rest : Bytes} :
    dropLeading? lead text = some rest ↔ text = lead ++ rest := by
  induction lead generalizing text with
  | nil => simp [dropLeading?]
  | cons expected lead ih =>
      cases text with
      | nil => simp [dropLeading?]
      | cons byte text =>
          by_cases heq : byte = expected <;> simp [dropLeading?, heq, ih]

/-- What holds of the numbers below 256 holds of all bytes. -/
theorem forall_byte {motive : UInt8 → Prop}
    (hall : ∀ index : Fin 256, motive (UInt8.ofNat index)) (byte : UInt8) : motive byte := by
  have hbyte := hall ⟨byte.toNat, byte.toNat_lt⟩
  rwa [UInt8.ofNat_toNat] at hbyte

section Indices

variable {byte : UInt8} {text : Bytes} {start position : Nat}

theorem indexFrom?_eq_some_iff :
    indexFrom? byte text start = some position ↔
      (start ≤ position ∧ text[position]? = some byte) ∧
        ∀ earlier, start ≤ earlier → earlier < position → text[earlier]? ≠ some byte := by
  simp only [indexFrom?, Option.map_eq_some_iff, List.findIdx?_eq_some_iff_getElem, beq_iff_eq,
    List.length_drop, List.getElem_drop]
  constructor
  · rintro ⟨offset, ⟨hoffset, hbyte, hfirst⟩, rfl⟩
    refine ⟨⟨Nat.le_add_right .., List.getElem?_eq_some_iff.2 ⟨by omega, hbyte⟩⟩, ?_⟩
    intro earlier hstart hearlier hsame
    obtain ⟨distance, rfl⟩ := Nat.exists_eq_add_of_le hstart
    exact hfirst distance (by omega) (List.getElem?_eq_some_iff.1 hsame).2
  · rintro ⟨⟨hstart, hbyte⟩, hfirst⟩
    obtain ⟨offset, rfl⟩ := Nat.exists_eq_add_of_le hstart
    obtain ⟨hinside, hbyte⟩ := List.getElem?_eq_some_iff.1 hbyte
    refine ⟨offset, ⟨by omega, hbyte, fun earlier hearlier hsame => ?_⟩, rfl⟩
    exact hfirst (start + earlier) (Nat.le_add_right ..) (by omega)
      (List.getElem?_eq_some_iff.2 ⟨by omega, hsame⟩)

theorem indexFrom?_eq_none_iff :
    indexFrom? byte text start = none ↔
      ∀ position, start ≤ position → text[position]? ≠ some byte := by
  simp only [indexFrom?, Option.map_eq_none_iff, List.findIdx?_eq_none_iff, beq_eq_false_iff_ne]
  constructor
  · intro hnone position hstart hbyte
    obtain ⟨offset, rfl⟩ := Nat.exists_eq_add_of_le hstart
    rw [← List.getElem?_drop] at hbyte
    exact hnone byte (List.mem_of_getElem? hbyte) rfl
  · rintro hnone byte hmem rfl
    obtain ⟨offset, hoffset⟩ := List.mem_iff_getElem?.1 hmem
    rw [List.getElem?_drop] at hoffset
    exact hnone (start + offset) (Nat.le_add_right ..) hoffset

theorem lt_length_of_indexFrom? (hindex : indexFrom? byte text start = some position) :
    start ≤ position ∧ position < text.length := by
  obtain ⟨⟨hstart, hbyte⟩, -⟩ := indexFrom?_eq_some_iff.1 hindex
  exact ⟨hstart, (List.getElem?_eq_some_iff.1 hbyte).1⟩

end Indices

end Bytes

end GroupChat
