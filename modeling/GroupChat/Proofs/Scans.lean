import GroupChat.OrderedSet.Lemmas
import Mathlib.Data.List.Destutter
import Mathlib.Data.List.Sort

/-!
# Ordered sets in one pass

Lists that increase strictly are united, intersected and subtracted by going through both of them at once,
and a list is made to increase by sorting it and dropping repeats. Main statements: on the items of ordered
sets these scans give the items of the result, and a list that is sorted in any way and rid of its repeats
holds the same classes as the set that is made of it.
-/

namespace GroupChat

variable {α : Type}

namespace StrictWeakOrder

section Scans

variable (order : StrictWeakOrder α)

/-- Of equivalent heads that of the first list is kept, and both lists go on. -/
def unite : List α → List α → List α
  | [], second => second
  | first, [] => first
  | head :: tail, head' :: tail' =>
      if order.lt head head' then head :: unite tail (head' :: tail')
      else if order.lt head' head then head' :: unite (head :: tail) tail'
      else head :: unite tail tail'
termination_by first second => first.length + second.length

def intersect : List α → List α → List α
  | [], _ => []
  | _, [] => []
  | head :: tail, head' :: tail' =>
      if order.lt head head' then intersect tail (head' :: tail')
      else if order.lt head' head then intersect (head :: tail) tail'
      else head :: intersect tail tail'
termination_by first second => first.length + second.length

def subtract : List α → List α → List α
  | [], _ => []
  | first, [] => first
  | head :: tail, head' :: tail' =>
      if order.lt head head' then head :: subtract tail (head' :: tail')
      else if order.lt head' head then subtract (head :: tail) tail'
      else subtract tail tail'
termination_by first second => first.length + second.length

/-- Whether the first list has an equivalent for every item of the second one. -/
def includes : List α → List α → Bool
  | _, [] => true
  | [], _ :: _ => false
  | head :: tail, head' :: tail' =>
      if order.lt head' head then false
      else if order.lt head head' then includes tail (head' :: tail')
      else includes tail tail'
termination_by first second => first.length + second.length

def Differ (first second : α) : Prop := order.equivalent first second = false

instance : DecidableRel order.Differ := fun first second =>
  inferInstanceAs (Decidable (order.equivalent first second = false))

/-- Keeps the first item of each run of equivalent ones. -/
def dropRepeats (items : List α) : List α := items.destutter order.Differ

/-- A list in which nothing comes before what stands in front of it. -/
def Sorted (items : List α) : Prop := items.Pairwise fun first second => order.lt second first = false

end Scans

variable {order : StrictWeakOrder α} {head head' item value : α} {items tail tail' first second : List α}

theorem equivalent_eq_false_of_lt (hlt : order.lt item value = true) :
    order.equivalent item value = false := by
  rw [equivalent, hlt]
  rfl

theorem equivalent_eq_false_of_gt (hlt : order.lt value item = true) :
    order.equivalent item value = false :=
  (order.equivalent_comm item value).trans (equivalent_eq_false_of_lt hlt)

/-- What comes before the head comes before all of an increasing list. -/
theorem lt_of_lt_head (hitems : (head :: tail).Pairwise (order.lt · · = true))
    (hlt : order.lt value head = true) (hmem : item ∈ head :: tail) : order.lt value item = true := by
  rcases List.mem_cons.1 hmem with rfl | hmem
  · exact hlt
  · exact order.lt_trans hlt ((List.pairwise_cons.1 hitems).1 item hmem)

/-- Nothing in an increasing list is equivalent to what comes before its head. -/
theorem any_eq_false_of_lt (hitems : (head :: tail).Pairwise (order.lt · · = true))
    (hlt : order.lt value head = true) : (head :: tail).any (order.equivalent · value) = false := by
  rw [List.any_eq_false]
  intro item hmem
  rw [equivalent_eq_false_of_gt (lt_of_lt_head hitems hlt hmem)]
  exact Bool.false_ne_true

/-- What comes behind the head of a list is not equivalent to it. -/
theorem any_cons_of_lt (hlt : order.lt head value = true) :
    (head :: tail).any (order.equivalent · value) = tail.any (order.equivalent · value) := by
  rw [List.any_cons, equivalent_eq_false_of_lt hlt, Bool.false_or]

theorem any_cons_of_equivalent (hequiv : order.equivalent head value = true) :
    (head :: tail).any (order.equivalent · value) = true := by
  rw [List.any_cons, hequiv, Bool.true_or]

theorem equivalent_of_not_lt (hnot : ¬order.lt head head' = true) (hnot' : ¬order.lt head' head = true) :
    order.equivalent head head' = true :=
  order.equivalent_iff.2 ⟨Bool.eq_false_iff.2 hnot, Bool.eq_false_iff.2 hnot'⟩

/-- What comes behind the head of an increasing list comes behind all equivalents of that head. -/
theorem lt_of_mem_tail (hfirst : (head :: tail).Pairwise (order.lt · · = true))
    (hequiv : order.equivalent head head' = true) (hmem : item ∈ tail) : order.lt head' item = true :=
  order.lt_of_equivalent_of_lt ((order.equivalent_comm head' head).trans hequiv)
    ((List.pairwise_cons.1 hfirst).1 item hmem)

theorem unite_nil (first : List α) : order.unite first [] = first := by
  cases first with
  | nil => rw [unite]
  | cons head tail =>
      rw [unite]
      rintro ⟨⟩

theorem mem_unite_iff (hfirst : first.Pairwise (order.lt · · = true))
    (hsecond : second.Pairwise (order.lt · · = true)) :
    item ∈ order.unite first second ↔
      item ∈ first ∨ (item ∈ second ∧ first.any (order.equivalent · item) = false) := by
  induction first, second using unite.induct order with
  | case1 second => simp [unite]
  | case2 first _ => simp [unite_nil]
  | case3 head tail head' tail' hlt ih =>
      have hbehind : item ∈ head' :: tail' →
          (head :: tail).any (order.equivalent · item) = tail.any (order.equivalent · item) :=
        fun hmem => any_cons_of_lt (lt_of_lt_head hsecond hlt hmem)
      have hsplit : item ∈ head' :: tail' ∧ (head :: tail).any (order.equivalent · item) = false ↔
          item ∈ head' :: tail' ∧ tail.any (order.equivalent · item) = false :=
        and_congr_right fun hmem => by rw [hbehind hmem]
      rw [unite, if_pos hlt, List.mem_cons, ih (List.pairwise_cons.1 hfirst).2 hsecond, hsplit,
        List.mem_cons (b := head), or_assoc]
  | case4 head tail head' tail' hnot hlt ih =>
      have hhead := any_eq_false_of_lt hfirst hlt
      have hsplit : (item = head' ∨ item ∈ tail') ∧ (head :: tail).any (order.equivalent · item) = false ↔
          item = head' ∨ (item ∈ tail' ∧ (head :: tail).any (order.equivalent · item) = false) := by
        rw [or_and_right, and_iff_left_of_imp]
        rintro rfl
        exact hhead
      rw [unite, if_neg hnot, if_pos hlt, List.mem_cons, ih hfirst (List.pairwise_cons.1 hsecond).2,
        List.mem_cons (b := head'), hsplit, or_left_comm]
  | case5 head tail head' tail' hnot hnot' ih =>
      have hequiv := equivalent_of_not_lt hnot hnot'
      have hbehind : item ∈ tail' →
          (head :: tail).any (order.equivalent · item) = tail.any (order.equivalent · item) :=
        fun hmem => any_cons_of_lt
          (lt_of_mem_tail hsecond ((order.equivalent_comm head' head).trans hequiv) hmem)
      have hsplit : item ∈ head' :: tail' ∧ (head :: tail).any (order.equivalent · item) = false ↔
          item ∈ tail' ∧ tail.any (order.equivalent · item) = false := by
        constructor
        · rintro ⟨hmem, hnone⟩
          rcases List.mem_cons.1 hmem with rfl | hmem
          · rw [any_cons_of_equivalent hequiv] at hnone
            cases hnone
          · exact ⟨hmem, hbehind hmem ▸ hnone⟩
        · rintro ⟨hmem, hnone⟩
          exact ⟨List.mem_cons_of_mem head' hmem, (hbehind hmem).trans hnone⟩
      rw [unite, if_neg hnot, if_neg hnot', List.mem_cons, ih (List.pairwise_cons.1 hfirst).2
        (List.pairwise_cons.1 hsecond).2, List.mem_cons, or_assoc, hsplit]

theorem pairwise_unite (hfirst : first.Pairwise (order.lt · · = true))
    (hsecond : second.Pairwise (order.lt · · = true)) :
    (order.unite first second).Pairwise (order.lt · · = true) := by
  induction first, second using unite.induct order with
  | case1 second =>
      rw [unite]
      exact hsecond
  | case2 first _ =>
      rw [unite_nil]
      exact hfirst
  | case3 head tail head' tail' hlt ih =>
      obtain ⟨hbelow, htail⟩ := List.pairwise_cons.1 hfirst
      rw [unite, if_pos hlt]
      refine List.pairwise_cons.2 ⟨fun item hmem => ?_, ih htail hsecond⟩
      rcases (mem_unite_iff htail hsecond).1 hmem with hmem | ⟨hmem, -⟩
      · exact hbelow item hmem
      · exact lt_of_lt_head hsecond hlt hmem
  | case4 head tail head' tail' hnot hlt ih =>
      obtain ⟨hbelow, htail⟩ := List.pairwise_cons.1 hsecond
      rw [unite, if_neg hnot, if_pos hlt]
      refine List.pairwise_cons.2 ⟨fun item hmem => ?_, ih hfirst htail⟩
      rcases (mem_unite_iff hfirst htail).1 hmem with hmem | ⟨hmem, -⟩
      · exact lt_of_lt_head hfirst hlt hmem
      · exact hbelow item hmem
  | case5 head tail head' tail' hnot hnot' ih =>
      obtain ⟨hbelow, htail⟩ := List.pairwise_cons.1 hfirst
      obtain ⟨-, htail'⟩ := List.pairwise_cons.1 hsecond
      have hequiv := equivalent_of_not_lt hnot' hnot
      rw [unite, if_neg hnot, if_neg hnot']
      refine List.pairwise_cons.2 ⟨fun item hmem => ?_, ih htail htail'⟩
      rcases (mem_unite_iff htail htail').1 hmem with hmem | ⟨hmem, -⟩
      · exact hbelow item hmem
      · exact lt_of_mem_tail hsecond hequiv hmem

theorem intersect_eq_filter (hfirst : first.Pairwise (order.lt · · = true))
    (hsecond : second.Pairwise (order.lt · · = true)) :
    order.intersect first second = first.filter fun item => second.any (order.equivalent · item) := by
  induction first, second using intersect.induct order with
  | case1 second => simp [intersect]
  | case2 first _ => cases first <;> simp [intersect]
  | case3 head tail head' tail' hlt ih =>
      have hhead := any_eq_false_of_lt hsecond hlt
      rw [intersect, if_pos hlt, ih (List.pairwise_cons.1 hfirst).2 hsecond,
        List.filter_cons_of_neg (by rw [hhead]; exact Bool.false_ne_true)]
  | case4 head tail head' tail' hnot hlt ih =>
      rw [intersect, if_neg hnot, if_pos hlt, ih hfirst (List.pairwise_cons.1 hsecond).2]
      exact List.filter_congr fun item hmem => (any_cons_of_lt (lt_of_lt_head hfirst hlt hmem)).symm
  | case5 head tail head' tail' hnot hnot' ih =>
      have hequiv := equivalent_of_not_lt hnot hnot'
      have hhead : (head' :: tail').any (order.equivalent · head) = true :=
        any_cons_of_equivalent (equivalent_of_not_lt hnot' hnot)
      rw [intersect, if_neg hnot, if_neg hnot',
        ih (List.pairwise_cons.1 hfirst).2 (List.pairwise_cons.1 hsecond).2,
        List.filter_cons, hhead, if_pos rfl]
      refine congrArg (head :: ·) ?_
      exact List.filter_congr fun item hmem => (any_cons_of_lt (lt_of_mem_tail hfirst hequiv hmem)).symm

theorem subtract_eq_filter (hfirst : first.Pairwise (order.lt · · = true))
    (hsecond : second.Pairwise (order.lt · · = true)) :
    order.subtract first second = first.filter fun item => !second.any (order.equivalent · item) := by
  induction first, second using subtract.induct order with
  | case1 second => simp [subtract]
  | case2 first _ => cases first <;> simp [subtract]
  | case3 head tail head' tail' hlt ih =>
      rw [subtract, if_pos hlt, ih (List.pairwise_cons.1 hfirst).2 hsecond, List.filter_cons,
        any_eq_false_of_lt hsecond hlt]
      rfl
  | case4 head tail head' tail' hnot hlt ih =>
      rw [subtract, if_neg hnot, if_pos hlt, ih hfirst (List.pairwise_cons.1 hsecond).2]
      refine List.filter_congr fun item hmem => ?_
      rw [any_cons_of_lt (lt_of_lt_head hfirst hlt hmem)]
  | case5 head tail head' tail' hnot hnot' ih =>
      have hequiv := equivalent_of_not_lt hnot hnot'
      have hhead : (head' :: tail').any (order.equivalent · head) = true :=
        any_cons_of_equivalent (equivalent_of_not_lt hnot' hnot)
      rw [subtract, if_neg hnot, if_neg hnot',
        ih (List.pairwise_cons.1 hfirst).2 (List.pairwise_cons.1 hsecond).2, List.filter_cons, hhead]
      refine List.filter_congr fun item hmem => ?_
      rw [any_cons_of_lt (lt_of_mem_tail hfirst hequiv hmem)]

theorem includes_iff (hfirst : first.Pairwise (order.lt · · = true))
    (hsecond : second.Pairwise (order.lt · · = true)) :
    order.includes first second = true ↔ ∀ item ∈ second, first.any (order.equivalent · item) = true := by
  induction first, second using includes.induct order with
  | case1 first => simp [includes]
  | case2 head' tail' =>
      rw [includes, List.forall_mem_cons]
      exact iff_of_false Bool.false_ne_true fun hall => Bool.false_ne_true hall.1
  | case3 head tail head' tail' hlt =>
      rw [includes, if_pos hlt, List.forall_mem_cons, any_eq_false_of_lt hfirst hlt]
      exact iff_of_false Bool.false_ne_true fun hall => Bool.false_ne_true hall.1
  | case4 head tail head' tail' hnot hlt ih =>
      rw [includes, if_neg hnot, if_pos hlt, ih (List.pairwise_cons.1 hfirst).2 hsecond]
      refine forall₂_congr fun item hmem => ?_
      rw [any_cons_of_lt (lt_of_lt_head hsecond hlt hmem)]
  | case5 head tail head' tail' hnot hnot' ih =>
      have hequiv := equivalent_of_not_lt hnot hnot'
      have hhead : (head :: tail).any (order.equivalent · head') = true :=
        any_cons_of_equivalent (equivalent_of_not_lt hnot' hnot)
      rw [includes, if_neg hnot, if_neg hnot',
        ih (List.pairwise_cons.1 hfirst).2 (List.pairwise_cons.1 hsecond).2, List.forall_mem_cons,
        and_iff_right hhead]
      refine forall₂_congr fun item hmem => ?_
      rw [any_cons_of_lt (lt_of_mem_tail hsecond hequiv hmem)]

/-- What a sorted list is left with, from a first item on. -/
theorem pairwise_destutter' (hsorted : order.Sorted (head :: tail)) :
    (tail.destutter' order.Differ head).Pairwise (order.lt · · = true) := by
  induction tail generalizing head with
  | nil => exact List.pairwise_singleton _ _
  | cons next rest ih =>
      obtain ⟨hhead, hnext⟩ := List.pairwise_cons.1 hsorted
      rw [List.destutter'_cons]
      split
      · rename_i hdiffer
        refine List.pairwise_cons.2 ⟨fun item hmem => ?_, ih hnext⟩
        have hlt : order.lt head next = true := by
          by_contra hnot
          have hequiv := equivalent_of_not_lt hnot (Bool.eq_false_iff.1 (hhead next List.mem_cons_self))
          exact Bool.eq_false_iff.1 hdiffer hequiv
        rcases List.mem_cons.1 ((List.destutter'_sublist _ _ _).mem hmem) with rfl | hmem
        · exact hlt
        · have hnot := Bool.eq_false_iff.1 ((List.pairwise_cons.1 hnext).1 item hmem)
          exact (order.cotrans item hlt).resolve_right hnot
      · exact ih (hsorted.sublist (List.Sublist.cons_cons head (List.sublist_cons_self next rest)))

theorem any_destutter' (head : α) (tail : List α) (value : α) :
    (tail.destutter' order.Differ head).any (order.equivalent · value) =
      (head :: tail).any (order.equivalent · value) := by
  induction tail generalizing head with
  | nil => rfl
  | cons next rest ih =>
      rw [List.destutter'_cons]
      split
      · simp only [List.any_cons, ih]
      · rename_i hsame
        have hequiv := OrderedSet.equivalent_congr_left (Bool.eq_true_of_not_eq_false hsame) value
        rw [ih, List.any_cons, List.any_cons, List.any_cons, hequiv, Bool.or_self_left]

theorem pairwise_dropRepeats (hsorted : order.Sorted items) :
    (order.dropRepeats items).Pairwise (order.lt · · = true) := by
  cases items with
  | nil => exact List.Pairwise.nil
  | cons head tail => exact pairwise_destutter' hsorted

theorem any_dropRepeats (items : List α) (value : α) :
    (order.dropRepeats items).any (order.equivalent · value) = items.any (order.equivalent · value) := by
  cases items with
  | nil => rfl
  | cons head tail => exact any_destutter' head tail value

theorem mem_insertSorted_iff (hitems : items.Pairwise (order.lt · · = true)) :
    value ∈ order.insertSorted item items ↔
      value ∈ items ∨ (value = item ∧ items.any (order.equivalent · item) = false) := by
  induction items with
  | nil => simp [insertSorted]
  | cons head tail ih =>
      by_cases hlt : order.lt item head = true
      · have hnone := any_eq_false_of_lt hitems hlt
        rw [insertSorted, if_pos hlt, List.mem_cons, hnone, and_iff_left rfl, or_comm]
      · rw [insertSorted, if_neg hlt]
        by_cases hlt' : order.lt head item = true
        · rw [if_pos hlt', List.mem_cons, ih (List.pairwise_cons.1 hitems).2, any_cons_of_lt hlt',
            List.mem_cons, or_assoc]
        · have hsome : (head :: tail).any (order.equivalent · item) = true :=
            any_cons_of_equivalent (equivalent_of_not_lt hlt' hlt)
          rw [if_neg hlt', hsome, or_iff_left]
          rintro ⟨-, ⟨⟩⟩

end StrictWeakOrder

namespace OrderedSet

open StrictWeakOrder

variable {order : StrictWeakOrder α} {item : α} {items : List α}

/-- Increasing items are taken over where the set has no equivalent. -/
theorem mem_items_foldl_insert (hitems : items.Pairwise (order.lt · · = true)) (set : OrderedSet order) :
    item ∈ (items.foldl insert set).items ↔
      item ∈ set.items ∨ (item ∈ items ∧ set.contains item = false) := by
  induction items generalizing set with
  | nil => simp
  | cons head tail ih =>
      obtain ⟨hbelow, htail⟩ := List.pairwise_cons.1 hitems
      have hbehind : item ∈ tail ∧ (set.insert head).contains item = false ↔
          item ∈ tail ∧ set.contains item = false := by
        refine and_congr_right fun hmem => ?_
        rw [contains_insert, equivalent_eq_false_of_lt (hbelow item hmem), Bool.false_or]
      have hhead : item = head ∧ set.contains head = false ↔ item = head ∧ set.contains item = false := by
        refine and_congr_right fun heq => ?_
        rw [heq]
      rw [List.foldl_cons, ih htail, hbehind, insert, mem_insertSorted_iff set.increasing,
        ← contains, hhead, or_assoc, ← or_and_right, ← List.mem_cons]

theorem eq_of_mem_iff {first second : List α} (hfirst : first.Pairwise (order.lt · · = true))
    (hsecond : second.Pairwise (order.lt · · = true)) (hsame : ∀ item, item ∈ first ↔ item ∈ second) :
    first = second := by
  have hirrefl : Std.Irrefl (order.lt · · = true) := ⟨fun item => by
    rw [order.lt_irrefl]
    exact Bool.false_ne_true⟩
  have hantisymm : Std.Antisymm (order.lt · · = true) := ⟨fun first second hlt hlt' => by
    rw [order.asymm hlt] at hlt'
    cases hlt'⟩
  exact hfirst.eq_of_mem_iff hsecond hsame

theorem items_union (first second : OrderedSet order) :
    (first.union second).items = order.unite first.items second.items := by
  refine eq_of_mem_iff (first.union second).increasing
    (pairwise_unite first.increasing second.increasing) fun item => ?_
  rw [union, mem_items_foldl_insert second.increasing, mem_unite_iff first.increasing second.increasing,
    contains]

theorem items_inter (first second : OrderedSet order) :
    (first.inter second).items = order.intersect first.items second.items :=
  (intersect_eq_filter first.increasing second.increasing).symm

theorem items_sdiff (first second : OrderedSet order) :
    (first.sdiff second).items = order.subtract first.items second.items :=
  (subtract_eq_filter first.increasing second.increasing).symm

theorem isSubset_eq (first second : OrderedSet order) :
    first.isSubset second = order.includes second.items first.items := by
  rw [Bool.eq_iff_iff, includes_iff second.increasing first.increasing, isSubset, List.all_eq_true]
  rfl

end OrderedSet

end GroupChat
