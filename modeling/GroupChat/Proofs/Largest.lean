import GroupChat.Directory
import Mathlib.Data.List.Induction

/-!
# The largest entry

Going through a directory in the order of its keys, what is kept is the first one of those entries that are
largest among all that were gone through. Main statements: `largest?_eq_none_iff` and `largest?_eq_some_iff`.
-/

namespace GroupChat.Directory

variable {β : Type} {size : β → Nat} {entries : List (MemberId × β)} {best : Option MemberId × Nat}
  {directory : Directory β} {key : MemberId}

/-- What is kept of some entries: nothing if all of them have size zero, and else the first one of the
largest. -/
inductive Kept (size : β → Nat) (entries : List (MemberId × β)) : Option MemberId × Nat → Prop
  | nothing (hzero : ∀ entry ∈ entries, size entry.2 = 0) : Kept size entries (none, 0)
  | first (head : MemberId × β) (hmem : head ∈ entries) (hpositive : 0 < size head.2)
      (hlargest : ∀ entry ∈ entries, size entry.2 ≤ size head.2)
      (hfirst : ∀ entry ∈ entries, size entry.2 = size head.2 → head.1 ≤ entry.1) :
      Kept size entries (some head.1, size head.2)

/-- An entry behind all others is kept if and only if it is larger than all of them. -/
theorem Kept.append (hkept : Kept size entries best) {entry : MemberId × β}
    (hbehind : ∀ earlier ∈ entries, earlier.1 < entry.1) :
    Kept size (entries ++ [entry])
      (if best.2 < size entry.2 then (some entry.1, size entry.2) else best) := by
  have hall {P : MemberId × β → Prop} (hearlier : ∀ earlier ∈ entries, P earlier) (hentry : P entry) :
      ∀ other ∈ entries ++ [entry], P other :=
    List.forall_mem_append.2 ⟨hearlier, List.forall_mem_singleton.2 hentry⟩
  cases hkept with
  | nothing hzero =>
      by_cases hpositive : 0 < size entry.2
      · rw [if_pos hpositive]
        refine .first entry (by simp) hpositive (hall ?_ (Nat.le_refl _)) (hall ?_ fun _ => List.le_refl _)
        · intro earlier hearlier
          rw [hzero earlier hearlier]
          exact Nat.zero_le _
        · intro earlier hearlier hsame
          rw [← hsame, hzero earlier hearlier] at hpositive
          cases hpositive
      · rw [if_neg hpositive]
        exact .nothing (hall hzero (Nat.eq_zero_of_not_pos hpositive))
  | first head hmem hpositive hlargest hfirst =>
      by_cases hlarger : size head.2 < size entry.2
      · rw [if_pos hlarger]
        refine .first entry (by simp) (Nat.zero_lt_of_lt hlarger) (hall ?_ (Nat.le_refl _))
          (hall ?_ fun _ => List.le_refl _)
        · intro earlier hearlier
          exact Nat.le_of_lt (Nat.lt_of_le_of_lt (hlargest earlier hearlier) hlarger)
        · intro earlier hearlier hsame
          have hbelow := hlargest earlier hearlier
          omega
      -- Of several that are largest, the one that comes first has the least key.
      · rw [if_neg hlarger]
        exact .first head (List.mem_append_left _ hmem) hpositive (hall hlargest (Nat.not_lt.1 hlarger))
          (hall hfirst fun _ => List.le_of_lt (hbehind head hmem))

theorem kept_foldl (hentries : entries.Pairwise fun first second => first.1 < second.1) :
    Kept size entries
      (entries.foldl
        (fun best entry => if best.2 < size entry.2 then (some entry.1, size entry.2) else best)
        (none, 0)) := by
  induction entries using List.reverseRecOn with
  | nil => exact .nothing (List.forall_mem_nil _)
  | append_singleton entries entry ih =>
      obtain ⟨hentries, -, hbehind⟩ := List.pairwise_append.1 hentries
      rw [List.foldl_append]
      exact (ih hentries).append fun earlier hearlier => hbehind earlier hearlier entry (by simp)

theorem kept_largest? (size : β → Nat) (directory : Directory β) :
    ∃ most, Kept size directory.entries (directory.largest? size, most) :=
  ⟨_, kept_foldl directory.increasing⟩

/-- Nothing is kept if and only if there is nothing of any size. -/
theorem largest?_eq_none_iff :
    directory.largest? size = none ↔ ∀ key value, directory.get? key = some value → size value = 0 := by
  obtain ⟨most, hkept⟩ := kept_largest? size directory
  generalize directory.largest? size = kept at hkept ⊢
  cases hkept with
  | nothing hzero => exact iff_of_true rfl fun key value hvalue => hzero _ (get?_eq_some_iff.1 hvalue)
  | first head hmem hpositive hlargest hfirst =>
      refine iff_of_false (Option.some_ne_none _) fun hzero => Nat.ne_of_gt hpositive ?_
      exact hzero head.1 head.2 (get?_eq_some_iff.2 hmem)

/-- What is kept is the least key of those with the largest values, if they have any size. -/
theorem largest?_eq_some_iff :
    directory.largest? size = some key ↔
      ∃ value, directory.get? key = some value ∧ 0 < size value ∧
        ∀ other value', directory.get? other = some value' →
          size value' ≤ size value ∧ (size value' = size value → key ≤ other) := by
  obtain ⟨most, hkept⟩ := kept_largest? size directory
  generalize directory.largest? size = kept at hkept ⊢
  cases hkept with
  | nothing hzero =>
      refine iff_of_false (Option.some_ne_none key).symm ?_
      rintro ⟨value, hvalue, hpositive, -⟩
      exact Nat.ne_of_gt hpositive (hzero _ (get?_eq_some_iff.1 hvalue))
  | first head hmem hpositive hlargest hfirst =>
      have hhead : directory.get? head.1 = some head.2 := get?_eq_some_iff.2 hmem
      constructor
      · rintro ⟨⟩
        refine ⟨head.2, hhead, hpositive, fun other value' hother => ?_⟩
        exact ⟨hlargest _ (get?_eq_some_iff.1 hother), hfirst _ (get?_eq_some_iff.1 hother)⟩
      · rintro ⟨value, hvalue, -, hothers⟩
        obtain ⟨hle, hleast⟩ := hothers head.1 head.2 hhead
        have hsame : size value = size head.2 :=
          Nat.le_antisymm (hlargest _ (get?_eq_some_iff.1 hvalue)) hle
        exact congrArg some (List.le_antisymm (hfirst _ (get?_eq_some_iff.1 hvalue) hsame)
          (hleast hsame.symm))

end GroupChat.Directory
