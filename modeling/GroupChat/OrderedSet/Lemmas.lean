import GroupChat.OrderedSet.Basic

/-!
What ordered sets contain. Main statements: every operation acts on what a set contains as the operation
on sets of equivalence classes does, two sets are the same up to equivalence if they contain the same
values, and under the lexicographic order such sets are equal.
-/

namespace GroupChat.OrderedSet

variable {α : Type} {order : StrictWeakOrder α}

theorem contains_iff {set : OrderedSet order} {value : α} :
    set.contains value = true ↔ ∃ item ∈ set.items, order.equivalent item value = true := by
  simp [contains]

theorem contains_congr (set : OrderedSet order) {first second : α}
    (heq : order.equivalent first second = true) : set.contains first = set.contains second := by
  rw [Bool.eq_iff_iff, contains_iff, contains_iff]
  constructor
  · rintro ⟨item, hitem, hequiv⟩
    exact ⟨item, hitem, order.equivalent_trans hequiv heq⟩
  · rintro ⟨item, hitem, hequiv⟩
    rw [order.equivalent_comm] at heq
    exact ⟨item, hitem, order.equivalent_trans hequiv heq⟩

@[simp]
theorem contains_empty (value : α) : (empty : OrderedSet order).contains value = false := rfl

@[simp]
theorem contains_singleton (item value : α) :
    (singleton item : OrderedSet order).contains value = order.equivalent item value := by
  simp [contains, singleton]

theorem equivalent_congr_left {first second : α} (heq : order.equivalent first second = true)
    (value : α) : order.equivalent first value = order.equivalent second value := by
  have h := contains_congr (singleton value : OrderedSet order) heq
  rwa [contains_singleton, contains_singleton, order.equivalent_comm value,
    order.equivalent_comm value] at h

theorem isEmpty_iff {set : OrderedSet order} : set.isEmpty = true ↔ set = empty := by
  constructor
  · intro h
    exact ext (List.isEmpty_iff.1 h)
  · rintro rfl
    rfl

theorem isEmpty_eq_false_iff {set : OrderedSet order} :
    set.isEmpty = false ↔ ∃ value, set.contains value = true := by
  constructor
  · intro h
    cases hitems : set.items with
    | nil => simp [isEmpty, hitems] at h
    | cons item rest =>
        exact ⟨item, contains_iff.2 ⟨item, by simp [hitems], order.equivalent_refl item⟩⟩
  · rintro ⟨value, hvalue⟩
    obtain ⟨item, hitem, _⟩ := contains_iff.1 hvalue
    exact Bool.eq_false_iff.2 fun h => by
      rw [isEmpty_iff.1 h] at hitem
      simp [empty] at hitem

theorem any_equivalent_insertSorted (order : StrictWeakOrder α) (item value : α) (items : List α) :
    (order.insertSorted item items).any (order.equivalent · value) =
      (order.equivalent item value || items.any (order.equivalent · value)) := by
  induction items with
  | nil => simp [StrictWeakOrder.insertSorted]
  | cons head tail ih =>
      unfold StrictWeakOrder.insertSorted
      split
      · simp
      · split
        · simp [ih, Bool.or_left_comm]
        · rename_i hbefore hafter
          have heq : order.equivalent head item = true := by
            simp [StrictWeakOrder.equivalent, hbefore, hafter]
          simp [equivalent_congr_left heq value]

@[simp]
theorem contains_insert (set : OrderedSet order) (item value : α) :
    (set.insert item).contains value = (order.equivalent item value || set.contains value) :=
  any_equivalent_insertSorted order item value set.items

theorem contains_foldl_insert (items : List α) (set : OrderedSet order) (value : α) :
    (items.foldl insert set).contains value =
      (set.contains value || items.any (order.equivalent · value)) := by
  induction items generalizing set with
  | nil => simp
  | cons item rest ih => simp [ih, Bool.or_assoc, Bool.or_left_comm]

@[simp]
theorem contains_ofList (items : List α) (value : α) :
    (ofList items : OrderedSet order).contains value = items.any (order.equivalent · value) := by
  simp [ofList, contains_foldl_insert]

@[simp]
theorem contains_union (first second : OrderedSet order) (value : α) :
    (first.union second).contains value = (first.contains value || second.contains value) :=
  contains_foldl_insert second.items first value

theorem contains_filter (set : OrderedSet order) {keep : α → Bool}
    (hkeep : ∀ {first second}, order.equivalent first second = true → keep first = keep second)
    (value : α) : (set.filter keep).contains value = (set.contains value && keep value) := by
  rw [Bool.eq_iff_iff, Bool.and_eq_true, contains_iff, contains_iff]
  constructor
  · rintro ⟨item, hitem, hequiv⟩
    obtain ⟨hmem, hkept⟩ := List.mem_filter.1 hitem
    exact ⟨⟨item, hmem, hequiv⟩, hkeep hequiv ▸ hkept⟩
  · rintro ⟨⟨item, hmem, hequiv⟩, hkept⟩
    exact ⟨item, List.mem_filter.2 ⟨hmem, (hkeep hequiv).trans hkept⟩, hequiv⟩

@[simp]
theorem contains_inter (first second : OrderedSet order) (value : α) :
    (first.inter second).contains value = (first.contains value && second.contains value) :=
  contains_filter first (fun heq => contains_congr second heq) value

@[simp]
theorem contains_sdiff (first second : OrderedSet order) (value : α) :
    (first.sdiff second).contains value = (first.contains value && !second.contains value) :=
  contains_filter first (fun heq => by rw [contains_congr second heq]) value

theorem isDisjoint_iff {first second : OrderedSet order} :
    first.isDisjoint second = true ↔
      ∀ value, first.contains value = true → second.contains value = false := by
  constructor
  · intro h value hvalue
    refine Bool.eq_false_iff.2 fun hsecond => ?_
    have hempty := isEmpty_iff.1 h
    have hboth := contains_inter first second value
    simp [hempty, hvalue, hsecond] at hboth
  · intro h
    cases hempty : first.isDisjoint second with
    | true => rfl
    | false =>
        obtain ⟨value, hvalue⟩ := isEmpty_eq_false_iff.1 hempty
        rw [contains_inter, Bool.and_eq_true] at hvalue
        simp [h value hvalue.1] at hvalue

theorem isSubset_iff {first second : OrderedSet order} :
    first.isSubset second = true ↔
      ∀ value, first.contains value = true → second.contains value = true := by
  constructor
  · intro h value hvalue
    obtain ⟨item, hitem, hequiv⟩ := contains_iff.1 hvalue
    exact contains_congr second hequiv ▸ List.all_eq_true.1 h item hitem
  · intro h
    exact List.all_eq_true.2 fun item hitem =>
      h item (contains_iff.2 ⟨item, hitem, order.equivalent_refl item⟩)

theorem any_tail_equivalent {head : α} {tail : List α}
    (hitems : (head :: tail).Pairwise (order.lt · · = true)) (value : α) :
    tail.any (order.equivalent · value) =
      ((head :: tail).any (order.equivalent · value) && !order.equivalent head value) := by
  cases hhead : order.equivalent head value with
  | false => simp [hhead]
  | true =>
      simp only [Bool.not_true, Bool.and_false, List.any_eq_false]
      intro item hitem hequiv
      have hlt := (List.pairwise_cons.1 hitems).1 item hitem
      have h := order.lt_of_lt_of_equivalent hlt hequiv
      simp [(order.equivalent_iff.1 hhead).1] at h

theorem not_lt_head {head value : α} {tail : List α}
    (hitems : (head :: tail).Pairwise (order.lt · · = true))
    (hvalue : (head :: tail).any (order.equivalent · value) = true) :
    order.lt value head = false := by
  obtain ⟨item, hitem, hequiv⟩ := List.any_eq_true.1 hvalue
  rcases List.mem_cons.1 hitem with rfl | hitem
  · exact (order.equivalent_iff.1 hequiv).2
  · exact order.asymm
      (order.lt_of_lt_of_equivalent ((List.pairwise_cons.1 hitems).1 item hitem) hequiv)

theorem equals_iff {first second : OrderedSet order} :
    first.equals second = true ↔ ∀ value, first.contains value = second.contains value := by
  obtain ⟨items, hitems⟩ := first
  obtain ⟨items', hitems'⟩ := second
  simp only [equals, contains]
  induction items generalizing items' with
  | nil =>
      cases items' with
      | nil => simp
      | cons head' tail' => exact ⟨by simp, fun h => by simpa using h head'⟩
  | cons head tail ih =>
      cases items' with
      | nil => exact ⟨by simp, fun h => by simpa using h head⟩
      | cons head' tail' =>
          have htail := any_tail_equivalent hitems
          have htail' := any_tail_equivalent hitems'
          have ih := ih (List.pairwise_cons.1 hitems).2 tail' (List.pairwise_cons.1 hitems').2
          simp only [Bool.and_eq_true, beq_iff_eq] at ih
          simp only [List.length_cons, List.zip_cons_cons, List.all_cons, Bool.and_eq_true,
            beq_iff_eq, Nat.add_right_cancel_iff]
          constructor
          · rintro ⟨hlength, hhead, hall⟩ value
            simp [equivalent_congr_left hhead value, ih.1 ⟨hlength, hall⟩ value]
          · intro h
            have hhead : order.equivalent head head' = true := by
              refine order.equivalent_iff.2 ⟨not_lt_head hitems' ?_, not_lt_head hitems ?_⟩
              · rw [← h head]
                simp
              · rw [h head']
                simp
            obtain ⟨hlength, hall⟩ := ih.2 fun value => by
              rw [htail, htail', h value, equivalent_congr_left hhead value]
            exact ⟨hlength, hhead, hall⟩

/-- Byte strings are equivalent only if they are equal, and so are sets of them. -/
theorem eq_of_contains {first second : OrderedSet StrictWeakOrder.lexicographic}
    (hsame : ∀ value, first.contains value = second.contains value) : first = second := by
  have hequals := equals_iff.2 hsame
  obtain ⟨items, hitems⟩ := first
  obtain ⟨items', hitems'⟩ := second
  simp only [equals, Bool.and_eq_true, beq_iff_eq] at hequals
  obtain ⟨hlength, hall⟩ := hequals
  refine ext (List.ext_getElem hlength fun index hindex hindex' => ?_)
  dsimp only at hindex hindex'
  have hzip : index < (items.zip items').length := by
    rw [List.length_zip]
    omega
  have h := List.all_eq_true.1 hall _ (List.getElem_mem hzip)
  simpa [StrictWeakOrder.lexicographic_equivalent_iff] using h

end GroupChat.OrderedSet
