import GroupChat.OrderedSet.Lemmas
import GroupChat.Standing
import Mathlib.Tactic.ByContra
import Mathlib.Tactic.Push
import Mathlib.Tactic.Tauto

/-!
# Memberships as sets of ids

Ids are equivalent only if they are equal, so a membership is determined by who belongs to it. Two
memberships differ by exactly one delta, and applying it to the older one gives the newer one.
-/

namespace GroupChat

namespace MemberSet

variable {first second : MemberSet} {id other : MemberId}

@[simp]
theorem not_mem_empty (id : MemberId) : id ∉ (OrderedSet.empty : MemberSet) := by
  rintro ⟨⟩

@[simp]
theorem mem_singleton_iff : id ∈ (OrderedSet.singleton other : MemberSet) ↔ id = other := by
  change (OrderedSet.singleton other : MemberSet).contains id = true ↔ _
  rw [OrderedSet.contains_singleton, StrictWeakOrder.lexicographic_equivalent_iff, eq_comm]

@[simp]
theorem mem_ofList_iff {ids : List MemberId} : id ∈ (OrderedSet.ofList ids : MemberSet) ↔ id ∈ ids := by
  change (OrderedSet.ofList ids : MemberSet).contains id = true ↔ id ∈ ids
  simp only [OrderedSet.contains_ofList, List.any_eq_true, StrictWeakOrder.lexicographic_equivalent_iff,
    exists_eq_right]

@[simp]
theorem mem_union_iff : id ∈ first.union second ↔ id ∈ first ∨ id ∈ second := by
  change (first.union second).contains id = true ↔ _
  rw [OrderedSet.contains_union, Bool.or_eq_true]
  rfl

@[simp]
theorem mem_inter_iff : id ∈ first.inter second ↔ id ∈ first ∧ id ∈ second := by
  change (first.inter second).contains id = true ↔ _
  rw [OrderedSet.contains_inter, Bool.and_eq_true]
  rfl

@[simp]
theorem mem_sdiff_iff : id ∈ first.sdiff second ↔ id ∈ first ∧ id ∉ second := by
  change (first.sdiff second).contains id = true ↔ _
  rw [OrderedSet.contains_sdiff, Bool.and_eq_true, Bool.not_eq_true', ← Bool.not_eq_true]
  rfl

theorem eq_of_mem_iff (hsame : ∀ id, id ∈ first ↔ id ∈ second) : first = second :=
  OrderedSet.eq_of_contains fun id => Bool.eq_iff_iff.2 (hsame id)

theorem mem_items_iff : id ∈ first.items ↔ id ∈ first := by
  change _ ↔ first.contains id = true
  simp [OrderedSet.contains_iff, StrictWeakOrder.lexicographic_equivalent_iff]

theorem isEmpty_iff_forall : first.isEmpty = true ↔ ∀ id, id ∉ first := by
  rw [OrderedSet.isEmpty_iff]
  constructor
  · rintro rfl id
    exact not_mem_empty id
  · intro hnone
    exact eq_of_mem_iff fun id => iff_of_false (hnone id) (not_mem_empty id)

theorem isDisjoint_iff_forall :
    first.isDisjoint second = true ↔ ∀ id, id ∈ first → id ∉ second := by
  rw [OrderedSet.isDisjoint_iff]
  exact forall_congr' fun id => imp_congr_right fun _ => Bool.not_eq_true _ ▸ Iff.rfl

theorem isSubset_iff_forall : first.isSubset second = true ↔ ∀ id, id ∈ first → id ∈ second :=
  OrderedSet.isSubset_iff

theorem singleton_sdiff (hmem : id ∈ first) :
    (OrderedSet.singleton id : MemberSet).sdiff first = OrderedSet.empty := by
  apply eq_of_mem_iff
  intro other
  simp only [mem_sdiff_iff, mem_singleton_iff, not_mem_empty, iff_false, not_and, not_not]
  rintro rfl
  exact hmem

theorem ne_iff_exists_sdiff :
    first ≠ second ↔ ∃ id, id ∈ second.sdiff first ∨ id ∈ first.sdiff second := by
  constructor
  · intro hne
    by_contra hnone
    push Not at hnone
    refine hne (eq_of_mem_iff fun id => ?_)
    have hid := hnone id
    simp only [mem_sdiff_iff, not_and, not_not] at hid
    exact ⟨hid.2, hid.1⟩
  · rintro ⟨id, hid⟩ rfl
    simp at hid

/-- What a member that has heard of everything sees of the membership. -/
def seenBy (members : MemberSet) (id : MemberId) : Standing :=
  if id ∈ members then some members else none

theorem seenBy_of_mem (hmem : id ∈ first) : seenBy first id = some first := if_pos hmem

theorem seenBy_of_not_mem (hmem : id ∉ first) : seenBy first id = none := if_neg hmem

end MemberSet

/-- The delta that leads from one membership to another. -/
def Delta.between (older newer : MemberSet) (hne : older ≠ newer) : Delta where
  enter := newer.sdiff older
  leave := older.sdiff newer
  disjoint := by
    rw [MemberSet.isDisjoint_iff_forall]
    simp +contextual
  nonempty := by
    obtain ⟨id, hid⟩ := MemberSet.ne_iff_exists_sdiff.1 hne
    rw [Bool.eq_false_iff, ne_eq, Bool.and_eq_true, not_and_or]
    rcases hid with hid | hid
    · exact Or.inl fun hempty => MemberSet.isEmpty_iff_forall.1 hempty id hid
    · exact Or.inr fun hempty => MemberSet.isEmpty_iff_forall.1 hempty id hid

theorem Delta.exists_mem (change : Delta) : ∃ id, id ∈ change.enter ∨ id ∈ change.leave := by
  by_contra hnone
  push Not at hnone
  have henter := MemberSet.isEmpty_iff_forall.2 fun id => (hnone id).1
  have hleave := MemberSet.isEmpty_iff_forall.2 fun id => (hnone id).2
  have hnonempty := change.nonempty
  simp [henter, hleave] at hnonempty

theorem Control.ofSets_delta (change : Delta) :
    Control.ofSets change.enter change.leave = .ok (.delta change) := by
  unfold ofSets
  rw [dif_neg (by simp [change.nonempty]), dif_pos change.disjoint]

theorem OrderedSet.patch_sdiff {older newer : MemberSet} :
    older.patch (newer.sdiff older) (older.sdiff newer) = .ok newer := by
  unfold patch
  rw [if_pos (MemberSet.isDisjoint_iff_forall.2 (by simp +contextual))]
  refine congrArg Except.ok (MemberSet.eq_of_mem_iff fun id => ?_)
  simp only [MemberSet.mem_union_iff, MemberSet.mem_sdiff_iff]
  tauto

theorem Control.apply_between {older newer : MemberSet} {id : MemberId} (hne : older ≠ newer)
    (hnewer : id ∈ newer) :
    (Control.delta (.between older newer hne)).apply id (some older) = .ok (some newer) := by
  have hdisjoint : (newer.sdiff older).isDisjoint older = true :=
    MemberSet.isDisjoint_iff_forall.2 (by simp)
  have hsubset : (older.sdiff newer).isSubset older = true :=
    MemberSet.isSubset_iff_forall.2 (by simp +contextual)
  have howner : (older.sdiff newer).contains id = false := by
    rw [← Bool.not_eq_true]
    exact fun hmem => (MemberSet.mem_sdiff_iff.1 hmem).2 hnewer
  simp only [Control.apply, Delta.between, hdisjoint, hsubset, howner, OrderedSet.patch_sdiff,
    Bool.not_true, Bool.false_eq_true, if_false]

end GroupChat
