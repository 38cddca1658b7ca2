import Mathlib.Data.List.Forall2
import Mathlib.Data.List.Induction

/-!
# Results that may be errors or missing

What it takes for a computation that may fail to succeed, for each of the ways in which such computations
are put together, and what comes of one that is made for each item of a list.
-/

namespace GroupChat

variable {ε ε' α β γ : Type}

theorem mapError_eq_ok_iff {wrap : ε → ε'} {result : Except ε α} {value : α} :
    result.mapError wrap = .ok value ↔ result = .ok value := by
  cases result with
  | error error => exact iff_of_false (by rintro ⟨⟩) (by rintro ⟨⟩)
  | ok other =>
      constructor
      · exact fun hok => congrArg _ (Except.ok.inj hok)
      · exact fun hok => congrArg _ (Except.ok.inj hok)

theorem map_eq_ok_iff {change : α → β} {result : Except ε α} {value : β} :
    result.map change = .ok value ↔ ∃ other, result = .ok other ∧ change other = value := by
  cases result with
  | error error => exact iff_of_false (by rintro ⟨⟩) (by rintro ⟨_, ⟨⟩, -⟩)
  | ok other =>
      constructor
      · exact fun hok => ⟨other, rfl, Except.ok.inj hok⟩
      · rintro ⟨_, ⟨⟩, hvalue⟩
        exact congrArg _ hvalue

theorem bind_eq_ok_iff {result : Except ε α} {rest : α → Except ε β} {value : β} :
    (result >>= rest) = .ok value ↔ ∃ other, result = .ok other ∧ rest other = .ok value := by
  cases result with
  | error error => exact iff_of_false (by rintro ⟨⟩) (by rintro ⟨_, ⟨⟩, -⟩)
  | ok other =>
      constructor
      · exact fun hrest => ⟨other, rfl, hrest⟩
      · rintro ⟨_, ⟨⟩, hrest⟩
        exact hrest

theorem guard_eq_ok_iff {fault : Prop} [Decidable fault] {error : ε} {rest : Except ε Unit} :
    (if fault then .error error else rest) = .ok () ↔ ¬fault ∧ rest = .ok () := by
  by_cases hfault : fault
  · rw [if_pos hfault]
    exact iff_of_false (by rintro ⟨⟩) fun hok => hok.1 hfault
  · rw [if_neg hfault]
    exact (and_iff_right hfault).symm

/-- What a fold comes to, if it is known what one more item makes of what those before it have come to. -/
theorem foldlM_eq_ok_iff {σ : Type} {step : σ → α → Except ε σ} {passes : α → Prop}
    {outcome : List α → σ} {items : List α} {final : σ}
    (hstep : ∀ items item next, step (outcome items) item = .ok next ↔
      passes item ∧ next = outcome (items ++ [item])) :
    items.foldlM step (outcome []) = .ok final ↔
      (∀ item ∈ items, passes item) ∧ final = outcome items := by
  induction items using List.reverseRecOn generalizing final with
  | nil => exact ⟨fun hok => ⟨nofun, (Except.ok.inj hok).symm⟩, fun hnil => congrArg _ hnil.2.symm⟩
  | append_singleton items item ih =>
      -- From the back: the last item is taken into what all items before it have come to.
      rw [List.foldlM_append, bind_eq_ok_iff, List.forall_mem_append, List.forall_mem_singleton]
      simp only [ih, List.foldlM_cons, List.foldlM_nil, bind_pure, and_assoc, exists_and_left,
        exists_eq_left, hstep]

theorem mapM_eq_ok_map {step : α → Except ε β} {result : α → β} {items : List α}
    (hstep : ∀ item ∈ items, step item = .ok (result item)) :
    items.mapM step = .ok (items.map result) := by
  induction items with
  | nil => rfl
  | cons item rest ih =>
      rw [List.mapM_cons, hstep item List.mem_cons_self,
        ih fun other hother => hstep other (List.mem_cons_of_mem _ hother)]
      rfl

theorem exists_mapM_eq_some_iff {step : α → Option β} {items : List α} :
    (∃ results, items.mapM step = some results) ↔ ∀ item ∈ items, ∃ result, step item = some result := by
  induction items with
  | nil => exact iff_of_true ⟨[], rfl⟩ nofun
  | cons item items ih =>
      rw [List.forall_mem_cons, ← ih]
      simp only [List.mapM_cons, Option.bind_eq_bind, Option.bind_eq_some_iff]
      constructor
      · rintro ⟨_, result, hitem, results, hitems, -⟩
        exact ⟨⟨result, hitem⟩, results, hitems⟩
      · rintro ⟨⟨result, hitem⟩, results, hitems⟩
        exact ⟨_, result, hitem, results, hitems, rfl⟩

theorem mapM_eq_some_iff {step : α → Option β} {items : List α} {results : List β} :
    items.mapM step = some results ↔ List.Forall₂ (fun item result => step item = some result) items results := by
  induction items generalizing results with
  | nil =>
      rw [List.mapM_nil, List.forall₂_nil_left_iff]
      exact ⟨fun hnil => (Option.some.inj hnil).symm, fun hnil => congrArg some hnil.symm⟩
  | cons item items ih =>
      simp only [List.mapM_cons, Option.bind_eq_bind, Option.bind_eq_some_iff, List.forall₂_cons_left_iff, ih]
      constructor
      · rintro ⟨result, hitem, others, hothers, hresults⟩
        exact ⟨result, others, hitem, hothers, (Option.some.inj hresults).symm⟩
      · rintro ⟨result, others, hitem, hothers, rfl⟩
        exact ⟨result, hitem, others, hothers, rfl⟩

theorem length_of_mapM_eq_some {step : α → Option β} {items : List α} {results : List β}
    (hresults : items.mapM step = some results) : results.length = items.length :=
  (mapM_eq_some_iff.1 hresults).length_eq.symm

theorem forall_of_mapM_eq_some {step : α → Option β} {goal : β → Prop} {items : List α} {results : List β}
    (hgoal : ∀ item result, step item = some result → goal result)
    (hresults : items.mapM step = some results) : ∀ result ∈ results, goal result := by
  have hforall := mapM_eq_some_iff.1 hresults
  clear hresults
  induction hforall with
  | nil => exact nofun
  | cons hitem _ ih => exact List.forall_mem_cons.2 ⟨hgoal _ _ hitem, ih⟩

/-- What is written for each item is read as that item. -/
theorem mapM_map_eq_some {write : α → β} {read : β → Option α} {items : List α}
    (hread : ∀ item ∈ items, read (write item) = some item) :
    (items.map write).mapM read = some items := by
  induction items with
  | nil => rfl
  | cons item items ih =>
      obtain ⟨hitem, hitems⟩ := List.forall_mem_cons.1 hread
      rw [List.map_cons, List.mapM_cons, hitem, ih hitems]
      rfl

/-- What is written for the results depends on the items they were read from, one by one. -/
theorem map_eq_of_mapM_eq_some {step : α → Option β} {write : β → γ} {plain : α → γ} {items : List α}
    {results : List β} (hwrite : ∀ item result, step item = some result → write result = plain item)
    (hresults : items.mapM step = some results) : results.map write = items.map plain := by
  have hforall := mapM_eq_some_iff.1 hresults
  clear hresults
  induction hforall with
  | nil => rfl
  | cons hitem _ ih => rw [List.map_cons, List.map_cons, hwrite _ _ hitem, ih]

end GroupChat
