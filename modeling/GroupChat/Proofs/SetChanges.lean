import GroupChat.Proofs.SetClasses

/-!
# Changes between ordered sets

A change between two sets is what the older one has to gain and to lose. Main statements: the change leads
from either set to the other, and no other patch does so that gains only what is new and loses only what is
there. A merge keeps of the parent what both children have kept and takes up what either of them has gained,
whichever of them comes first.
-/

namespace GroupChat.OrderedSet

variable {α : Type} {order : StrictWeakOrder α} {first second set older newer added removed : OrderedSet order}

theorem isDisjoint_iff_classes : first.isDisjoint second = true ↔ first.classes ∩ second.classes = ∅ := by
  rw [isDisjoint_iff, Set.eq_empty_iff_forall_notMem, StrictWeakOrder.forall_class]
  apply forall_congr'
  intro value
  rw [Set.mem_inter_iff, not_and, classOf_mem_classes_iff, classOf_mem_classes_iff, Bool.not_eq_true]

theorem isSubset_iff_classes : first.isSubset second = true ↔ first.classes ⊆ second.classes := by
  rw [isSubset_iff, Set.subset_def, StrictWeakOrder.forall_class]
  apply forall_congr'
  intro value
  rw [classOf_mem_classes_iff, classOf_mem_classes_iff]

/-- Sets overlap if an item of one is equivalent to an item of the other. -/
theorem isDisjoint_eq_false_iff :
    first.isDisjoint second = false ↔
      ∃ item ∈ first.items, ∃ other ∈ second.items, order.equivalent item other = true := by
  rw [← Bool.not_eq_true, isDisjoint_iff_classes, ← Ne.eq_def, ← Set.nonempty_iff_ne_empty]
  constructor
  · rintro ⟨_, ⟨item, hitem, rfl⟩, other, hother, hsame⟩
    exact ⟨item, hitem, other, hother, StrictWeakOrder.classOf_eq_iff.1 hsame.symm⟩
  · rintro ⟨item, hitem, other, hother, hequiv⟩
    exact ⟨order.classOf item, ⟨item, hitem, rfl⟩, other, hother,
      (StrictWeakOrder.classOf_eq_iff.2 hequiv).symm⟩

theorem patch_eq_error_iff :
    set.patch added removed = .error .overlap ↔ added.isDisjoint removed = false := by
  rw [patch]
  cases added.isDisjoint removed with
  | true => exact iff_of_false (by rintro ⟨⟩) (by rintro ⟨⟩)
  | false => exact iff_of_true rfl rfl

/-- An operation succeeds, and gives a set up to equivalence. -/
def Yields (result : Except PatchError (OrderedSet order)) (set : OrderedSet order) : Prop :=
  ∃ made, result = .ok made ∧ made.equals set = true

/-- A patch acts on classes, once its halves do not overlap. -/
theorem yields_patch_iff {patched : OrderedSet order} :
    Yields (set.patch added removed) patched ↔
      added.classes ∩ removed.classes = ∅ ∧
        (set.classes \ removed.classes) ∪ added.classes = patched.classes := by
  have hclasses : ((set.sdiff removed).union added).equals patched = true ↔
      (set.classes \ removed.classes) ∪ added.classes = patched.classes := by
    rw [equals_iff_classes, classes_union, classes_sdiff]
  rw [← isDisjoint_iff_classes, ← hclasses]
  constructor
  · rintro ⟨made, hmade, hequals⟩
    obtain ⟨hdisjoint, rfl⟩ := patch_eq_ok_iff.1 hmade
    exact ⟨hdisjoint, hequals⟩
  · rintro ⟨hdisjoint, hequals⟩
    exact ⟨_, patch_eq_ok_iff.2 ⟨hdisjoint, rfl⟩, hequals⟩

/-- Nothing is gained that is there already, and what is lost is there. -/
theorem disjoint_changeTo (older newer : OrderedSet order) :
    (older.changeTo newer).added.isDisjoint older = true ∧
      (older.changeTo newer).added.isDisjoint (older.changeTo newer).removed = true ∧
      (older.changeTo newer).removed.isSubset older = true := by
  simp only [changeTo, isDisjoint_iff_classes, isSubset_iff_classes, classes_sdiff]
  exact ⟨Set.sdiff_inter_self, Set.disjoint_iff_inter_eq_empty.1 disjoint_sdiff_sdiff, Set.sdiff_subset⟩

theorem yields_patch_changeTo (older newer : OrderedSet order) :
    Yields (older.patch (older.changeTo newer).added (older.changeTo newer).removed) newer := by
  obtain ⟨-, hdisjoint, -⟩ := disjoint_changeTo older newer
  refine yields_patch_iff.2 ⟨isDisjoint_iff_classes.1 hdisjoint, ?_⟩
  rw [changeTo, classes_sdiff, classes_sdiff]
  calc
    (older.classes \ (older.classes \ newer.classes)) ∪ (newer.classes \ older.classes) =
        (newer.classes ∩ older.classes) ∪ (newer.classes \ older.classes) := by
      rw [Set.sdiff_sdiff_right_self, Set.inter_comm]
    _ = newer.classes := Set.inter_union_sdiff newer.classes older.classes

/-- Whatever leads to the newer set gains what is new in it, if it gains nothing that is there already. -/
theorem equals_added_of_yields (hadded : added.isDisjoint older = true)
    (hyields : Yields (older.patch added removed) newer) :
    added.equals (older.changeTo newer).added = true := by
  obtain ⟨-, hnewer⟩ := yields_patch_iff.1 hyields
  have hnew : Disjoint added.classes older.classes :=
    Set.disjoint_iff_inter_eq_empty.2 (isDisjoint_iff_classes.1 hadded)
  rw [equals_iff_classes, changeTo, classes_sdiff, ← hnewer]
  symm
  calc
    ((older.classes \ removed.classes) ∪ added.classes) \ older.classes =
        ((older.classes \ removed.classes) \ older.classes) ∪ (added.classes \ older.classes) :=
      Set.union_sdiff_distrib
    _ = ∅ ∪ added.classes := by
      rw [Set.sdiff_eq_empty.2 Set.sdiff_subset, hnew.sdiff_eq_left]
    _ = added.classes := Set.empty_union added.classes

/-- Whatever leads to the newer set loses what is not in it, if it loses only what is there. -/
theorem equals_removed_of_yields (hremoved : removed.isSubset older = true)
    (hyields : Yields (older.patch added removed) newer) :
    removed.equals (older.changeTo newer).removed = true := by
  obtain ⟨hoverlap, hnewer⟩ := yields_patch_iff.1 hyields
  have hdisjoint : Disjoint removed.classes added.classes :=
    (Set.disjoint_iff_inter_eq_empty.2 hoverlap).symm
  rw [equals_iff_classes, changeTo, classes_sdiff, ← hnewer]
  symm
  calc
    older.classes \ ((older.classes \ removed.classes) ∪ added.classes) =
        (older.classes ∩ removed.classes) \ added.classes := by
      rw [← Set.sdiff_sdiff, Set.sdiff_sdiff_right_self]
    _ = removed.classes \ added.classes := by
      rw [Set.inter_eq_right.2 (isSubset_iff_classes.1 hremoved)]
    _ = removed.classes := hdisjoint.sdiff_eq_left

/-- **Changes.** The change between two sets gains nothing that the older one has and loses nothing that it
has not. It leads from the older set to the newer one and, taken back, from the newer set to the older one,
and it is the only patch of this kind that leads to the newer set. A patch fails if and only if an item that
it adds is equivalent to one that it removes. -/
theorem changes_are_inverse_and_minimal (older newer : OrderedSet order) :
    let change := older.changeTo newer
    (change.added.isDisjoint older = true ∧ change.added.isDisjoint change.removed = true ∧
        change.removed.isSubset older = true) ∧
      Yields (older.patch change.added change.removed) newer ∧
      Yields (newer.patch change.removed change.added) older ∧
      (∀ added removed : OrderedSet order, added.isDisjoint older = true → removed.isSubset older = true →
        Yields (older.patch added removed) newer →
          added.equals change.added = true ∧ removed.equals change.removed = true) ∧
      ∀ set added removed : OrderedSet order, set.patch added removed = .error .overlap ↔
        ∃ item ∈ added.items, ∃ other ∈ removed.items, order.equivalent item other = true := by
  intro change
  refine ⟨disjoint_changeTo older newer, yields_patch_changeTo older newer, yields_patch_changeTo newer older,
    ?_, ?_⟩
  · intro added removed hadded hremoved hyields
    exact ⟨equals_added_of_yields hadded hyields, equals_removed_of_yields hremoved hyields⟩
  · intro set added removed
    exact patch_eq_error_iff.trans isDisjoint_eq_false_iff

/-- From 1 and 2 to -2 and 3 by the distance from zero: any patch gains 3 and loses 1, or what is opposite. -/
theorem opposites_change_alike :
    let older : OrderedSet StrictWeakOrder.magnitudes := ofList [1, 2]
    let newer : OrderedSet StrictWeakOrder.magnitudes := ofList [-2, 3]
    (ofList [-3]).isDisjoint older = true ∧ (ofList [-1]).isSubset older = true ∧
      Yields (older.patch (ofList [-3]) (ofList [-1])) newer ∧
      (ofList [-3]).equals (older.changeTo newer).added = true ∧
      (ofList [-1]).equals (older.changeTo newer).removed = true := by
  intro older newer
  have hyields : Yields (older.patch (ofList [-3]) (ofList [-1])) newer := ⟨_, rfl, rfl⟩
  obtain ⟨-, -, -, hminimal, -⟩ := changes_are_inverse_and_minimal older newer
  exact ⟨rfl, rfl, hyields, hminimal (ofList [-3]) (ofList [-1]) rfl rfl hyields⟩

/-- A merge does not fail: what the first child has gained is not among what it has lost. -/
theorem exists_merge (parent child₀ child₁ : OrderedSet order) :
    ∃ merged, parent.merge child₀ child₁ = .ok merged ∧ ∀ value, merged.contains value =
      if parent.contains value then child₀.contains value && child₁.contains value
      else child₀.contains value || child₁.contains value := by
  obtain ⟨-, hdisjoint, -⟩ := disjoint_changeTo parent child₀
  refine ⟨_, patch_eq_ok_iff.2 ⟨hdisjoint, rfl⟩, fun value => ?_⟩
  simp only [changeTo, contains_union, contains_sdiff]
  cases parent.contains value <;> cases child₀.contains value <;> cases child₁.contains value <;> rfl

theorem yields_merge_iff {parent child₀ child₁ : OrderedSet order} :
    Yields (parent.merge child₀ child₁) set ↔ ∀ value, set.contains value =
      if parent.contains value then child₀.contains value && child₁.contains value
      else child₀.contains value || child₁.contains value := by
  obtain ⟨merged, hmerge, hmerged⟩ := exists_merge parent child₀ child₁
  constructor
  · rintro ⟨made, hmade, hequals⟩ value
    cases hmerge.symm.trans hmade
    rw [← equals_iff.1 hequals value, hmerged]
  · intro hset
    refine ⟨merged, hmerge, equals_iff.2 fun value => ?_⟩
    rw [hmerged, hset]

/-- **Merges.** Two sets that were both made of a parent can always be merged. The result has those elements
of the parent that both children have, and those elements of either child that the parent does not have. So
the order of the children does not matter, a child that is like the parent contributes nothing, and two
children that are alike agree. -/
theorem merges_keep_both_changes (parent child₀ child₁ : OrderedSet order) :
    (∃ merged, parent.merge child₀ child₁ = .ok merged ∧
      (∀ value, value ∈ merged ↔
        (value ∈ parent ∧ value ∈ child₀ ∧ value ∈ child₁) ∨
          (value ∉ parent ∧ (value ∈ child₀ ∨ value ∈ child₁))) ∧
      ∃ swapped, parent.merge child₁ child₀ = .ok swapped ∧ merged.equals swapped = true) ∧
      ∀ child : OrderedSet order, Yields (parent.merge parent child) child ∧
        Yields (parent.merge child parent) child ∧ Yields (parent.merge child child) child := by
  constructor
  · obtain ⟨merged, hmerge, hmerged⟩ := exists_merge parent child₀ child₁
    obtain ⟨swapped, hswap, hswapped⟩ := exists_merge parent child₁ child₀
    refine ⟨merged, hmerge, fun value => ?_, swapped, hswap, equals_iff.2 fun value => ?_⟩
    · change merged.contains value = true ↔ (parent.contains value = true ∧ child₀.contains value = true ∧
        child₁.contains value = true) ∨ (¬parent.contains value = true ∧
          (child₀.contains value = true ∨ child₁.contains value = true))
      rw [hmerged]
      cases parent.contains value <;> simp
    · rw [hmerged, hswapped, Bool.and_comm, Bool.or_comm]
  · intro child
    simp only [yields_merge_iff]
    refine ⟨fun value => ?_, fun value => ?_, fun value => ?_⟩
    · cases parent.contains value <;> simp
    · cases parent.contains value <;> simp
    · rw [Bool.and_self, Bool.or_self, ite_self]

end GroupChat.OrderedSet
