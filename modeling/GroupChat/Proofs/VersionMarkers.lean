import GroupChat.Greet.Wire
import Mathlib.Data.List.TakeWhile
import Mathlib.Data.Nat.Find

/-!
# The first version that a text names

A version stands as digits between the letter v and a question mark, anywhere in a text. Main statements: the
search finds the leftmost of them, wherever other letters and digits stand in between, and finds none only
if there is none.
-/

namespace GroupChat.Wire

variable {text digits other : Bytes} {start position : Nat}

/-- The text has these digits at this position, between the letter v and a question mark. -/
def NamesVersion (text : Bytes) (position : Nat) (digits : Bytes) : Prop :=
  (digits ≠ [] ∧ ∀ digit ∈ digits, 48 ≤ digit ∧ digit ≤ 57) ∧
    Bytes.ofString "v" ++ digits ++ Bytes.ofString "?" <+: text.drop position

/-- Of all versions from the start on, these digits are named leftmost. -/
def FirstFrom (start : Nat) (text digits : Bytes) : Prop :=
  ∃ position, start ≤ position ∧ NamesVersion text position digits ∧
    ∀ earlier, start ≤ earlier → earlier < position → ∀ other, ¬NamesVersion text earlier other

/-- Of all versions in the text, these digits are named leftmost. -/
def FirstVersion (text digits : Bytes) : Prop :=
  ∃ position, NamesVersion text position digits ∧
    ∀ earlier < position, ∀ other, ¬NamesVersion text earlier other

theorem firstFrom_zero_iff : FirstFrom 0 text digits ↔ FirstVersion text digits := by
  simp only [FirstFrom, FirstVersion, Nat.zero_le, true_and, true_imp_iff]

theorem isDigit_iff {byte : UInt8} : isDigit byte = true ↔ 48 ≤ byte ∧ byte ≤ 57 := by
  simp only [isDigit, Bool.and_eq_true, decide_eq_true_eq]

theorem all_isDigit_iff :
    digits.all isDigit = true ↔ ∀ digit ∈ digits, 48 ≤ digit ∧ digit ≤ 57 := by
  simp only [List.all_eq_true, isDigit_iff]

theorem digitsEnd_eq (text : Bytes) (position : Nat) :
    digitsEnd text position = position + ((text.drop position).takeWhile isDigit).length := by
  fun_induction digitsEnd text position with
  | case1 position hinside hdigit ih =>
      rw [ih, List.drop_eq_getElem_cons hinside, List.takeWhile_cons_of_pos hdigit, List.length_cons]
      omega
  | case2 position hinside hdigit =>
      rw [List.drop_eq_getElem_cons hinside, List.takeWhile_cons_of_neg hdigit]
      rfl
  | case3 position hinside =>
      rw [List.drop_eq_nil_of_le (Nat.le_of_not_lt hinside)]
      rfl

/-- All that a version at some position means: its letter, some digits and a question mark behind them. -/
theorem namesVersion_iff :
    NamesVersion text position digits ↔
      text[position]? = some versionLetter ∧
        digits = (text.drop (position + 1)).takeWhile isDigit ∧ digits ≠ [] ∧
        ((text.drop (position + 1)).dropWhile isDigit).head? = some questionMark := by
  constructor
  · rintro ⟨⟨hne, hdigits⟩, rest, hrest⟩
    have hall : ∀ digit ∈ digits, isDigit digit = true := List.all_eq_true.1 (all_isDigit_iff.2 hdigits)
    have hdrop : text.drop position = versionLetter :: (digits ++ questionMark :: rest) := by
      rw [← hrest, List.append_assoc, List.append_assoc]
      rfl
    have htail : text.drop (position + 1) = digits ++ questionMark :: rest := by
      rw [← List.tail_drop, hdrop, List.tail_cons]
    refine ⟨?_, ?_, hne, ?_⟩
    · rw [← List.head?_drop, hdrop, List.head?_cons]
    · rw [htail, List.takeWhile_append_of_pos hall]
      exact (List.append_nil digits).symm
    · rw [htail, List.dropWhile_append_of_pos hall]
      rfl
  · rintro ⟨hletter, rfl, hne, hmark⟩
    refine ⟨⟨hne, fun digit hmem => isDigit_iff.1 (List.mem_takeWhile_imp hmem)⟩, ?_⟩
    obtain ⟨hinside, hletter⟩ := List.getElem?_eq_some_iff.1 hletter
    obtain ⟨rest, hrest⟩ := List.head?_eq_some_iff.1 hmark
    have hsplit : (text.drop (position + 1)).takeWhile isDigit ++ questionMark :: rest =
        text.drop (position + 1) := by
      rw [← hrest, List.takeWhile_append_dropWhile]
    refine ⟨rest, ?_⟩
    rw [List.append_assoc, List.append_assoc, List.drop_eq_getElem_cons hinside, hletter]
    exact congrArg (versionLetter :: ·) hsplit

theorem NamesVersion.unique (hdigits : NamesVersion text position digits)
    (hother : NamesVersion text position other) : digits = other :=
  (namesVersion_iff.1 hdigits).2.1.trans (namesVersion_iff.1 hother).2.1.symm

/-- Behind a letter, what the search cuts out there is all that the text can name there. -/
theorem namesVersion_iff_of_letter (hletter : text[position]? = some versionLetter) :
    NamesVersion text position digits ↔
      (position + 1 < digitsEnd text (position + 1) ∧
        text[digitsEnd text (position + 1)]? = some questionMark) ∧
      (text.drop (position + 1)).take (digitsEnd text (position + 1) - (position + 1)) = digits := by
  have hstop := digitsEnd_eq text (position + 1)
  have hcut : (text.drop (position + 1)).take (digitsEnd text (position + 1) - (position + 1)) =
      (text.drop (position + 1)).takeWhile isDigit := by
    rw [hstop, Nat.add_sub_cancel_left]
    exact (List.prefix_iff_eq_take.1 (List.takeWhile_prefix isDigit)).symm
  have hmark : text[digitsEnd text (position + 1)]? =
      ((text.drop (position + 1)).dropWhile isDigit).head? := by
    have hsplit := List.takeWhile_append_dropWhile (p := isDigit) (l := text.drop (position + 1))
    rw [hstop, ← List.getElem?_drop, ← List.head?_drop]
    exact congrArg List.head? ((congrArg _ hsplit.symm).trans List.drop_left)
  have hsome : position + 1 < digitsEnd text (position + 1) ↔
      (text.drop (position + 1)).takeWhile isDigit ≠ [] := by
    rw [hstop, ← List.length_pos_iff]
    omega
  rw [namesVersion_iff, hcut, hmark, hsome]
  constructor
  · rintro ⟨-, rfl, hne, hquestion⟩
    exact ⟨⟨hne, hquestion⟩, rfl⟩
  · rintro ⟨⟨hne, hquestion⟩, rfl⟩
    exact ⟨hletter, rfl, hne, hquestion⟩

/-- Where no version is named, the search may go on behind. -/
theorem firstFrom_congr {later : Nat} (hle : start ≤ later)
    (hnone : ∀ between, start ≤ between → between < later →
      ∀ other, ¬NamesVersion text between other) :
    FirstFrom start text digits ↔ FirstFrom later text digits := by
  constructor
  · rintro ⟨position, hstart, hnames, hfirst⟩
    have hlater : later ≤ position :=
      Nat.le_of_not_lt fun hlt => hnone position hstart hlt digits hnames
    exact ⟨position, hlater, hnames, fun earlier hearlier => hfirst earlier (le_trans hle hearlier)⟩
  · rintro ⟨position, hlater, hnames, hfirst⟩
    refine ⟨position, le_trans hle hlater, hnames, fun earlier hearlier hlt => ?_⟩
    rcases Nat.lt_or_ge earlier later with hskipped | hreached
    · exact hnone earlier hearlier hskipped
    · exact hfirst earlier hreached hlt

theorem versionFrom?_eq_some_iff (text : Bytes) (start : Nat) (digits : Bytes) :
    versionFrom? text start = some digits ↔ FirstFrom start text digits := by
  fun_induction versionFrom? text start with
  | case1 start hnone =>
      refine iff_of_false nofun ?_
      rintro ⟨position, hstart, hnames, -⟩
      exact Bytes.indexFrom?_eq_none_iff.1 hnone position hstart (namesVersion_iff.1 hnames).1
  | case2 start position hindex stop hversion =>
      obtain ⟨⟨hstart, hletter⟩, hfirst⟩ := Bytes.indexFrom?_eq_some_iff.1 hindex
      have hbefore : ∀ between, start ≤ between → between < position →
          ∀ other, ¬NamesVersion text between other := fun between hbetween hlt other hnames =>
        hfirst between hbetween hlt (namesVersion_iff.1 hnames).1
      rw [firstFrom_congr hstart hbefore, Option.some.injEq]
      have hnames : ∀ other, NamesVersion text position other ↔ _ = other := fun other =>
        (namesVersion_iff_of_letter hletter).trans (and_iff_right hversion)
      rw [← hnames]
      constructor
      · exact fun hnamed => ⟨position, Nat.le_refl position, hnamed, by omega⟩
      · rintro ⟨found, hle, hnamed, hleft⟩
        -- This position names a version, so that no later one is leftmost.
        rcases Nat.eq_or_lt_of_le hle with rfl | hlt
        · exact hnamed
        · exact absurd ((hnames _).2 rfl) (hleft position (Nat.le_refl position) hlt _)
  | case3 start position hindex stop hversion ih =>
      obtain ⟨⟨hstart, hletter⟩, hfirst⟩ := Bytes.indexFrom?_eq_some_iff.1 hindex
      rw [ih, ← firstFrom_congr (Nat.le_succ_of_le hstart)]
      intro between hbetween hlt other hnames
      rcases Nat.eq_or_lt_of_le (Nat.le_of_lt_succ hlt) with rfl | hbefore
      · exact hversion ((namesVersion_iff_of_letter hletter).1 hnames).1
      · exact hfirst between hbetween hbefore (namesVersion_iff.1 hnames).1

theorem namedVersion?_eq_some_iff : namedVersion? text = some digits ↔ FirstVersion text digits := by
  rw [namedVersion?, versionFrom?_eq_some_iff, firstFrom_zero_iff]

/-- If any version is named, then one is named leftmost. -/
theorem exists_firstVersion (hnames : NamesVersion text position digits) :
    ∃ digits, FirstVersion text digits := by
  classical
  have hsome : ∃ position digits, NamesVersion text position digits := ⟨position, digits, hnames⟩
  obtain ⟨first, hfirst⟩ := Nat.find_spec hsome
  exact ⟨first, Nat.find hsome, hfirst, fun earlier hearlier other hnames =>
    Nat.find_min hsome hearlier ⟨other, hnames⟩⟩

theorem namedVersion?_eq_none_iff :
    namedVersion? text = none ↔ ∀ position digits, ¬NamesVersion text position digits := by
  rw [Option.eq_none_iff_forall_ne_some]
  simp only [ne_eq, namedVersion?_eq_some_iff]
  constructor
  · intro hnone position digits hnames
    obtain ⟨first, hfirst⟩ := exists_firstVersion hnames
    exact hnone first hfirst
  · rintro hnone digits ⟨position, hnames, -⟩
    exact hnone position digits hnames

end GroupChat.Wire
