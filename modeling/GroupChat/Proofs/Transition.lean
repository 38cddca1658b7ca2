import GroupChat.Channel
import GroupChat.Proofs.Membership

/-!
# What a member is told of a change

Whoever stays is told the delta between the memberships, whoever enters is told of its own entry and
then of the others, and whoever leaves is told just that. These announcements lead from what a
member saw of the older membership to what it has to see of the newer one, and no control notice
leaves a standing as it was.
-/

namespace GroupChat

namespace Notice

def control? : Notice → Option Control
  | .control change => some change
  | .raw _ _ => none

/-- What the owner sees after a notice. A control that does not fit changes nothing. -/
def landing (owner : MemberId) (standing : Standing) : Notice → Standing
  | .raw _ _ => standing
  | .control change =>
      match change.apply owner standing with
      | .ok next => next
      | .error _ => standing

end Notice

/-- A delta that is applied brings in only who is outside, and takes out only who is there. -/
theorem Control.apply_delta_eq_ok {change : Delta} {owner : MemberId} {members : MemberSet}
    {next : Standing} (hok : (Control.delta change).apply owner (some members) = .ok next) :
    (∀ id ∈ change.enter, id ∉ members) ∧ (∀ id ∈ change.leave, id ∈ members) ∧
      next = some ((members.sdiff change.leave).union change.enter) := by
  simp only [apply, OrderedSet.patch, change.disjoint, if_true] at hok
  split at hok
  · simp at hok
  · rename_i hdisjoint
    split at hok
    · simp at hok
    · rename_i hsubset
      split at hok
      · simp at hok
      · rw [Bool.not_eq_true', Bool.not_eq_false] at hdisjoint hsubset
        exact ⟨MemberSet.isDisjoint_iff_forall.1 hdisjoint,
          MemberSet.isSubset_iff_forall.1 hsubset, (Except.ok.inj hok).symm⟩

/-- A control that is applied changes what the owner sees. -/
theorem Control.apply_ne {change : Control} {owner : MemberId} {standing next : Standing}
    (hok : change.apply owner standing = .ok next) : standing ≠ next := by
  rintro rfl
  cases change with
  | selfEnter => cases standing <;> simp [apply] at hok
  | selfLeave => cases standing <;> simp [apply] at hok
  | delta change =>
      cases standing with
      | none => simp [apply] at hok
      | some members =>
          obtain ⟨henter, hleave, hnext⟩ := apply_delta_eq_ok hok
          have hsame := fun id => congrArg (id ∈ ·) (Option.some.inj hnext)
          simp only [MemberSet.mem_union_iff, MemberSet.mem_sdiff_iff, eq_iff_iff] at hsame
          obtain ⟨id, hid | hid⟩ := change.exists_mem
          · exact henter id hid ((hsame id).2 (Or.inr hid))
          · have hentered := ((hsame id).1 (hleave id hid)).resolve_left fun h => h.2 hid
            exact MemberSet.isDisjoint_iff_forall.1 change.disjoint id hentered hid

namespace Standing

/-- What the owner sees once all control notices of a queue are applied in order. -/
def after (owner : MemberId) (queue : List Notice) (standing : Standing) :
    Except Failure Standing :=
  (queue.filterMap Notice.control?).foldlM (fun standing change => change.apply owner standing)
    standing

/-- The notices of a queue, each with what the owner sees once it has arrived. -/
def forecast (owner : MemberId) (standing : Standing) : List Notice → List (Notice × Standing)
  | [] => []
  | notice :: rest =>
      (notice, notice.landing owner standing) ::
        forecast owner (notice.landing owner standing) rest

variable {owner : MemberId} {standing next : Standing} {first second : List Notice}

@[simp]
theorem after_nil : after owner [] standing = .ok standing := rfl

theorem after_append :
    after owner (first ++ second) standing =
      (after owner first standing).bind (after owner second) := by
  unfold after
  rw [List.filterMap_append, List.foldlM_append]
  rfl

theorem apply_of_after_cons {change : Control}
    (hok : after owner (.control change :: first) standing = .ok next) :
    ∃ landed, change.apply owner standing = .ok landed ∧ after owner first landed = .ok next := by
  cases happly : change.apply owner standing with
  | error failure =>
      have herror : after owner (.control change :: first) standing = .error failure := by
        simp [after, Notice.control?, happly, bind, Except.bind]
      simp [herror] at hok
  | ok landed =>
      have hrest : after owner (.control change :: first) standing = after owner first landed := by
        simp [after, Notice.control?, happly, bind, Except.bind]
      exact ⟨landed, rfl, hrest ▸ hok⟩

theorem after_cons_of_ok {notice : Notice} (hok : after owner (notice :: first) standing = .ok next) :
    after owner first (notice.landing owner standing) = .ok next := by
  cases notice with
  | raw payload sender => exact hok
  | control change =>
      obtain ⟨landed, happly, hrest⟩ := apply_of_after_cons hok
      simpa [Notice.landing, happly] using hrest

@[simp]
theorem forecast_map_fst (queue : List Notice) :
    (forecast owner standing queue).map Prod.fst = queue := by
  induction queue generalizing standing with
  | nil => rfl
  | cons notice rest ih => simp [forecast, ih]

theorem forecast_append (hfirst : after owner first standing = .ok next) (second : List Notice) :
    forecast owner standing (first ++ second) =
      forecast owner standing first ++ forecast owner next second := by
  induction first generalizing standing with
  | nil =>
      rw [after_nil, Except.ok.injEq] at hfirst
      simp [forecast, hfirst]
  | cons notice rest ih => simp [forecast, ih (after_cons_of_ok hfirst)]

end Standing

namespace MemberSet

/-- What is told to a member that belongs to both memberships. -/
def updates (older newer : MemberSet) : List Notice :=
  if hne : older = newer then [] else [.control (.delta (.between older newer hne))]

def announcements (older newer : MemberSet) (id : MemberId) : List Notice :=
  if id ∈ newer then
    if id ∈ older then updates older newer
    else .control .selfEnter :: updates (OrderedSet.singleton id) newer
  else if id ∈ older then [.control .selfLeave]
  else []

variable {older newer : MemberSet} {id : MemberId}

theorem updates_self (members : MemberSet) : updates members members = [] := by
  simp [updates]

theorem announcements_self (members : MemberSet) (id : MemberId) :
    announcements members members id = [] := by
  by_cases hmem : id ∈ members <;> simp [announcements, hmem, updates_self]

theorem forecast_updates (hnewer : id ∈ newer) :
    Standing.forecast id (some older) (updates older newer) =
      (updates older newer).map fun notice => (notice, some newer) := by
  unfold updates
  split
  · rfl
  · rename_i hne
    simp [Standing.forecast, Notice.landing, Control.apply_between hne hnewer]

theorem after_updates (hnewer : id ∈ newer) :
    Standing.after id (updates older newer) (some older) = .ok (some newer) := by
  unfold updates
  split
  · rename_i heq
    rw [heq, Standing.after_nil]
  · rename_i hne
    simp [Standing.after, Notice.control?, Control.apply_between hne hnewer]

/-- The announcements of a change lead from what was seen before to what is to be seen after. -/
theorem after_announcements (older newer : MemberSet) (id : MemberId) :
    Standing.after id (announcements older newer id) (older.seenBy id) =
      .ok (newer.seenBy id) := by
  unfold announcements
  by_cases hnewer : id ∈ newer <;> by_cases holder : id ∈ older
  · rw [if_pos hnewer, if_pos holder, seenBy_of_mem holder, seenBy_of_mem hnewer,
      after_updates hnewer]
  · rw [if_pos hnewer, if_neg holder, seenBy_of_not_mem holder, seenBy_of_mem hnewer,
      ← List.singleton_append, Standing.after_append]
    exact after_updates hnewer
  · rw [if_neg hnewer, if_pos holder, seenBy_of_mem holder, seenBy_of_not_mem hnewer]
    rfl
  · rw [if_neg hnewer, if_neg holder, seenBy_of_not_mem holder, seenBy_of_not_mem hnewer,
      Standing.after_nil]

end MemberSet

end GroupChat
