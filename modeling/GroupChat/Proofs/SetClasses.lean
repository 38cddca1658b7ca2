import GroupChat.Proofs.Results
import GroupChat.Proofs.Scans
import Mathlib.Data.Set.Basic

/-!
# Ordered sets as sets of equivalence classes

Under a strict weak order different values can be the same element, and an ordered set stands for the set of
the classes of its items. Main statement: however an ordered set is made, its items increase strictly, come
from those that it was made of, and stand for the classes that the same operations on sets of classes give.
-/

namespace GroupChat

variable {α : Type}

namespace StrictWeakOrder

/-- Values are the same element if neither comes before the other. -/
def setoid (order : StrictWeakOrder α) : Setoid α where
  r first second := order.equivalent first second = true
  iseqv :=
    { refl := order.equivalent_refl
      symm := fun {first second} hequiv => (order.equivalent_comm second first).trans hequiv
      trans := order.equivalent_trans }

def Class (order : StrictWeakOrder α) : Type := Quotient order.setoid

def classOf (order : StrictWeakOrder α) (value : α) : order.Class := Quotient.mk order.setoid value

/-- The classes that some values belong to. -/
def classes (order : StrictWeakOrder α) (items : List α) : Set order.Class :=
  {c | ∃ item ∈ items, order.classOf item = c}

theorem classOf_eq_iff {order : StrictWeakOrder α} {first second : α} :
    order.classOf first = order.classOf second ↔ order.equivalent first second = true :=
  Quotient.eq

theorem forall_class {order : StrictWeakOrder α} {P : order.Class → Prop} :
    (∀ c, P c) ↔ ∀ value, P (order.classOf value) := Quotient.forall

end StrictWeakOrder

namespace OrderedSet

variable {order : StrictWeakOrder α} {value : α}

def classes (set : OrderedSet order) : Set order.Class := order.classes set.items

theorem classOf_mem_classes_iff {set : OrderedSet order} :
    order.classOf value ∈ set.classes ↔ set.contains value = true := by
  rw [contains_iff]
  exact exists_congr fun item => and_congr_right fun _ => StrictWeakOrder.classOf_eq_iff

theorem classes_eq_iff {set : OrderedSet order} {classes : Set order.Class} :
    set.classes = classes ↔ ∀ value, set.contains value = true ↔ order.classOf value ∈ classes := by
  rw [Set.ext_iff, StrictWeakOrder.forall_class]
  exact forall_congr' fun value => by rw [classOf_mem_classes_iff]

theorem classes_ofList (items : List α) :
    (ofList items : OrderedSet order).classes = order.classes items := by
  refine classes_eq_iff.2 fun value => ?_
  rw [contains_ofList, List.any_eq_true]
  exact exists_congr fun item => and_congr_right fun _ => StrictWeakOrder.classOf_eq_iff.symm

theorem classes_union (first second : OrderedSet order) :
    (first.union second).classes = first.classes ∪ second.classes := by
  refine classes_eq_iff.2 fun value => ?_
  rw [contains_union, Bool.or_eq_true, Set.mem_union, classOf_mem_classes_iff, classOf_mem_classes_iff]

theorem classes_inter (first second : OrderedSet order) :
    (first.inter second).classes = first.classes ∩ second.classes := by
  refine classes_eq_iff.2 fun value => ?_
  rw [contains_inter, Bool.and_eq_true, Set.mem_inter_iff, classOf_mem_classes_iff,
    classOf_mem_classes_iff]

theorem classes_sdiff (first second : OrderedSet order) :
    (first.sdiff second).classes = first.classes \ second.classes := by
  refine classes_eq_iff.2 fun value => ?_
  rw [contains_sdiff, Bool.and_eq_true, Bool.not_eq_true', Set.mem_sdiff, classOf_mem_classes_iff,
    classOf_mem_classes_iff, Bool.not_eq_true]

theorem equals_iff_classes {first second : OrderedSet order} :
    first.equals second = true ↔ first.classes = second.classes := by
  rw [equals_iff, classes_eq_iff]
  exact forall_congr' fun value => by rw [classOf_mem_classes_iff, Bool.eq_iff_iff]

theorem mem_of_mem_foldl_insert {items : List α} {set : OrderedSet order}
    (hmem : value ∈ (items.foldl insert set).items) : value ∈ set.items ∨ value ∈ items := by
  induction items generalizing set with
  | nil => exact .inl hmem
  | cons item rest ih =>
      rcases ih hmem with hinserted | hrest
      · rcases order.mem_insertSorted hinserted with rfl | hset
        · exact .inr List.mem_cons_self
        · exact .inl hset
      · exact .inr (List.mem_cons_of_mem item hrest)

theorem mem_of_mem_ofList {items : List α} (hmem : value ∈ (ofList items : OrderedSet order).items) :
    value ∈ items :=
  (mem_of_mem_foldl_insert hmem).resolve_left List.not_mem_nil

theorem patch_eq_ok_iff {set added removed patched : OrderedSet order} :
    set.patch added removed = .ok patched ↔
      added.isDisjoint removed = true ∧ (set.sdiff removed).union added = patched := by
  rw [patch]
  by_cases hdisjoint : added.isDisjoint removed = true
  · rw [if_pos hdisjoint, and_iff_right hdisjoint, Except.ok.injEq]
  · rw [if_neg hdisjoint]
    exact iff_of_false (by rintro ⟨⟩) fun hboth => hdisjoint hboth.1

/-- What makes one set of two. -/
inductive Operation where
  | union
  | inter
  | sdiff
  /-- What is added from the first set to the second one. -/
  | added
  /-- What is removed from the first set to the second one. -/
  | removed

namespace Operation

def apply (first second : OrderedSet order) : Operation → OrderedSet order
  | .union => first.union second
  | .inter => first.inter second
  | .sdiff => first.sdiff second
  | .added => (first.changeTo second).added
  | .removed => (first.changeTo second).removed

def onClasses (first second : Set order.Class) : Operation → Set order.Class
  | .union => first ∪ second
  | .inter => first ∩ second
  | .sdiff | .removed => first \ second
  | .added => second \ first

end Operation

/-- How a set can be made: of a list of values, which may be absent, or of other sets. -/
inductive Recipe (α : Type) where
  | list (items : List α)
  | option (items : Option (List α))
  | combine (operation : Operation) (first second : Recipe α)
  | patch (base gains losses : Recipe α)
  | merge (parent child₀ child₁ : Recipe α)

namespace Recipe

def make (order : StrictWeakOrder α) : Recipe α → Except PatchError (OrderedSet order)
  | .list items => return ofList items
  | .option items => return ofOption items
  | .combine operation first second => return operation.apply (← first.make order) (← second.make order)
  | .patch base gains losses => do (← base.make order).patch (← gains.make order) (← losses.make order)
  | .merge parent child₀ child₁ => do
      (← parent.make order).merge (← child₀.make order) (← child₁.make order)

/-- All values that a set is made of. -/
def values : Recipe α → List α
  | .list items => items
  | .option items => items.getD []
  | .combine _ first second => first.values ++ second.values
  | .patch base gains losses => base.values ++ gains.values ++ losses.values
  | .merge parent child₀ child₁ => parent.values ++ child₀.values ++ child₁.values

/-- What is made if every operation acts on sets of classes. -/
def classes (order : StrictWeakOrder α) : Recipe α → Set order.Class
  | .list items => order.classes items
  | .option items => order.classes (items.getD [])
  | .combine operation first second => operation.onClasses (first.classes order) (second.classes order)
  | .patch base gains losses => (base.classes order \ losses.classes order) ∪ gains.classes order
  | .merge parent child₀ child₁ =>
      (child₁.classes order \ (parent.classes order \ child₀.classes order)) ∪
        (child₀.classes order \ parent.classes order)

end Recipe

/-- A set holds some of the given values, and stands for the given classes. -/
structure Realises (set : OrderedSet order) (values : List α) (classes : Set order.Class) : Prop where
  values : ∀ value ∈ set.items, value ∈ values
  classes : set.classes = classes

namespace Realises

variable {first second : OrderedSet order} {values values' : List α} {classes classes' : Set order.Class}

theorem mono (hset : first.Realises values classes) (hvalues : ∀ value ∈ values, value ∈ values') :
    first.Realises values' classes :=
  ⟨fun value hmem => hvalues value (hset.values value hmem), hset.classes⟩

theorem ofList (items : List α) :
    (OrderedSet.ofList items : OrderedSet order).Realises items (order.classes items) :=
  ⟨fun _ => mem_of_mem_ofList, classes_ofList items⟩

theorem union (hfirst : first.Realises values classes) (hsecond : second.Realises values' classes') :
    (first.union second).Realises (values ++ values') (classes ∪ classes') where
  values := by
    intro value hmem
    rcases mem_of_mem_foldl_insert hmem with hmem | hmem
    · exact List.mem_append_left values' (hfirst.values value hmem)
    · exact List.mem_append_right values (hsecond.values value hmem)
  classes := by rw [classes_union, hfirst.classes, hsecond.classes]

theorem inter (hfirst : first.Realises values classes) (hsecond : second.Realises values' classes') :
    (first.inter second).Realises values (classes ∩ classes') where
  values := fun value hmem => hfirst.values value (List.mem_filter.1 hmem).1
  classes := by rw [classes_inter, hfirst.classes, hsecond.classes]

theorem sdiff (hfirst : first.Realises values classes) (hsecond : second.Realises values' classes') :
    (first.sdiff second).Realises values (classes \ classes') where
  values := fun value hmem => hfirst.values value (List.mem_filter.1 hmem).1
  classes := by rw [classes_sdiff, hfirst.classes, hsecond.classes]

theorem combine (operation : Operation) (hfirst : first.Realises values classes)
    (hsecond : second.Realises values' classes') :
    (operation.apply first second).Realises (values ++ values') (operation.onClasses classes classes') := by
  cases operation with
  | union => exact hfirst.union hsecond
  | inter => exact (hfirst.inter hsecond).mono fun _ => List.mem_append_left values'
  | sdiff | removed => exact (hfirst.sdiff hsecond).mono fun _ => List.mem_append_left values'
  | added => exact (hsecond.sdiff hfirst).mono fun _ => List.mem_append_right values

end Realises

theorem Recipe.realises_of_make_eq_ok {recipe : Recipe α} {set : OrderedSet order}
    (hmake : recipe.make order = .ok set) : set.Realises recipe.values (recipe.classes order) := by
  induction recipe generalizing set with
  | list items =>
      cases hmake
      exact .ofList items
  | option items =>
      cases hmake
      exact .ofList (items.getD [])
  | combine operation first second ihfirst ihsecond =>
      obtain ⟨madeFirst, hfirst, hrest⟩ := bind_eq_ok_iff.1 hmake
      obtain ⟨madeSecond, hsecond, hset⟩ := bind_eq_ok_iff.1 hrest
      cases hset
      exact (ihfirst hfirst).combine operation (ihsecond hsecond)
  | patch base gains losses ihbase ihgains ihlosses =>
      obtain ⟨madeBase, hbase, hrest⟩ := bind_eq_ok_iff.1 hmake
      obtain ⟨madeGains, hgains, hrest⟩ := bind_eq_ok_iff.1 hrest
      obtain ⟨madeLosses, hlosses, hset⟩ := bind_eq_ok_iff.1 hrest
      obtain ⟨-, rfl⟩ := patch_eq_ok_iff.1 hset
      have hkept := (ihbase hbase).sdiff (ihlosses hlosses)
      exact (hkept.union (ihgains hgains)).mono fun _ => List.mem_append_left losses.values
  | merge parent child₀ child₁ ihparent ihchild₀ ihchild₁ =>
      obtain ⟨madeParent, hparent, hrest⟩ := bind_eq_ok_iff.1 hmake
      obtain ⟨madeChild₀, hchild₀, hrest⟩ := bind_eq_ok_iff.1 hrest
      obtain ⟨madeChild₁, hchild₁, hset⟩ := bind_eq_ok_iff.1 hrest
      obtain ⟨-, rfl⟩ := patch_eq_ok_iff.1 hset
      have hremoved := (ihparent hparent).sdiff (ihchild₀ hchild₀)
      have hadded := (ihchild₀ hchild₀).sdiff (ihparent hparent)
      refine (((ihchild₁ hchild₁).sdiff hremoved).union hadded).mono fun value hmem => ?_
      rw [Recipe.values, List.append_assoc]
      exact List.mem_append_right _ (List.perm_append_comm.mem_iff.1 hmem)

/-- A list that is sorted in some way, and then rid of its repeats, stands for the classes of its items. -/
theorem classes_dropRepeats {items sorted : List α} (hperm : sorted.Perm items) :
    order.classes (order.dropRepeats sorted) = (ofList items : OrderedSet order).classes := by
  ext c
  obtain ⟨value, rfl⟩ := Quotient.exists_rep c
  have hmem : ∀ items : List α, order.classOf value ∈ order.classes items ↔
      items.any (order.equivalent · value) = true := by
    intro items
    rw [List.any_eq_true]
    exact exists_congr fun item => and_congr_right fun _ => StrictWeakOrder.classOf_eq_iff
  calc
    order.classOf value ∈ order.classes (order.dropRepeats sorted) ↔
        sorted.any (order.equivalent · value) = true := by
      rw [hmem, StrictWeakOrder.any_dropRepeats]
    _ ↔ items.any (order.equivalent · value) = true := by
      rw [List.any_eq_true, List.any_eq_true]
      exact exists_congr fun item => and_congr_left fun _ => hperm.mem_iff
    _ ↔ order.classOf value ∈ (ofList items : OrderedSet order).classes := by
      rw [classes_ofList, hmem]

/-- **Ordered sets are sets of classes.** Under every strict weak order, a set that is made of lists by any
number of operations has strictly increasing items, which are some of those that it was made of, and stands
for the classes that it should. A list becomes a set in whatever way it is sorted, the operations are scans
of sorted items, and all of them say of the values that are contained what they should. -/
theorem refines_sets_of_classes (order : StrictWeakOrder α) :
    (∀ (recipe : Recipe α) (set : OrderedSet order), recipe.make order = .ok set →
      set.items.Pairwise (order.lt · · = true) ∧ (∀ item ∈ set.items, item ∈ recipe.values) ∧
        set.classes = recipe.classes order) ∧
      (∀ items : List α,
        (∀ value, (ofList items : OrderedSet order).contains value = true ↔
          ∃ item ∈ items, order.equivalent item value = true) ∧
        (∀ item ∈ (ofList items : OrderedSet order).items, item ∈ items) ∧
        ∀ sorted, sorted.Perm items → order.Sorted sorted →
          (order.dropRepeats sorted).Pairwise (order.lt · · = true) ∧
            (∀ item ∈ order.dropRepeats sorted, item ∈ items) ∧
            order.classes (order.dropRepeats sorted) = (ofList items : OrderedSet order).classes) ∧
      (∀ first second : OrderedSet order,
        (first.union second).items = order.unite first.items second.items ∧
          (first.inter second).items = order.intersect first.items second.items ∧
          (first.sdiff second).items = order.subtract first.items second.items ∧
          first.isSubset second = order.includes second.items first.items) ∧
      (∀ (first second : OrderedSet order) (value : α),
        (first.union second).contains value = (first.contains value || second.contains value) ∧
          (first.inter second).contains value = (first.contains value && second.contains value) ∧
          (first.sdiff second).contains value = (first.contains value && !second.contains value)) ∧
      (∀ first second : OrderedSet order,
        (first.isSubset second = true ↔
          ∀ value, first.contains value = true → second.contains value = true) ∧
        (first.isDisjoint second = true ↔
          ∀ value, first.contains value = true → second.contains value = false) ∧
        (first.equals second = true ↔ ∀ value, first.contains value = second.contains value)) ∧
      ∀ first second third : OrderedSet order,
        (first.union second).equals (second.union first) = true ∧
          (first.inter second).equals (second.inter first) = true ∧
          ((first.union second).union third).equals (first.union (second.union third)) = true ∧
          ((first.inter second).inter third).equals (first.inter (second.inter third)) = true ∧
          (first.union first).equals first = true ∧
          (first.inter first).equals first = true ∧
          (first.union (second.inter third)).equals ((first.union second).inter (first.union third)) =
            true ∧
          (first.inter (second.union third)).equals ((first.inter second).union (first.inter third)) =
            true := by
  refine ⟨?_, ?_, ?_, ?_, ?_, ?_⟩
  · intro recipe set hmake
    have hset := recipe.realises_of_make_eq_ok hmake
    exact ⟨set.increasing, hset.values, hset.classes⟩
  · intro items
    refine ⟨fun value => by rw [contains_ofList, List.any_eq_true], fun _ => mem_of_mem_ofList, ?_⟩
    intro sorted hperm hsorted
    refine ⟨StrictWeakOrder.pairwise_dropRepeats hsorted, fun item hmem => ?_, classes_dropRepeats hperm⟩
    exact hperm.mem_iff.1 ((List.destutter_sublist _ _).mem hmem)
  · intro first second
    exact ⟨items_union first second, items_inter first second, items_sdiff first second,
      isSubset_eq first second⟩
  · intro first second value
    exact ⟨contains_union first second value, contains_inter first second value,
      contains_sdiff first second value⟩
  · intro first second
    exact ⟨isSubset_iff, isDisjoint_iff, equals_iff⟩
  · intro first second third
    simp only [equals_iff_classes, classes_union, classes_inter]
    exact ⟨Set.union_comm _ _, Set.inter_comm _ _, Set.union_assoc _ _ _, Set.inter_assoc _ _ _,
      Set.union_self _, Set.inter_self _, Set.union_inter_distrib_left _ _ _,
      Set.inter_union_distrib_left _ _ _⟩

/-- Opposite numbers are the same element under the distance from zero: what one child has for the 1 of the
parent is nothing new, and the other child holds 3 once. -/
theorem opposites_are_merged :
    let recipe := Recipe.merge (.list [1]) (.list [-1, 2]) (.list [3, -3])
    ∃ set, recipe.make StrictWeakOrder.magnitudes = .ok set ∧ set.items = [2, 3] ∧
      set.classes = recipe.classes StrictWeakOrder.magnitudes := by
  intro recipe
  have hset : recipe.make StrictWeakOrder.magnitudes =
      .ok ⟨[2, 3], by decide⟩ := by
    rfl
  obtain ⟨hmade, -⟩ := refines_sets_of_classes StrictWeakOrder.magnitudes
  obtain ⟨-, -, hclasses⟩ := hmade recipe _ hset
  exact ⟨_, hset, rfl, hclasses⟩

end OrderedSet

end GroupChat
