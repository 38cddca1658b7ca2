import GroupChat.Proofs.ChannelRuns
import Mathlib.Data.Nat.Init

/-!
# What is left of many deltas

While a member is inside, others may enter and leave any number of times. Whoever compares what the member
saw before with what it sees later does not learn of all that, but of its net effect. Main statement: in
every session on a channel, the change between the memberships that are seen at two moments of one stint has
those as added that were brought in once more than they were taken out, and those as removed for whom it is
the other way around, and nobody is further out of balance than that.
-/

namespace GroupChat

/-- How many of some deltas bring an id in, less how many take it out. -/
def Delta.balance (changes : List Delta) (id : MemberId) : Int :=
  (changes.countP (·.enter.contains id) : Int) - changes.countP (·.leave.contains id)

/-- 1 for those who belong to a membership, and 0 for all others. -/
def MemberSet.presence (members : MemberSet) (id : MemberId) : Int := if id ∈ members then 1 else 0

namespace Delta

theorem balance_nil (id : MemberId) : balance [] id = 0 := rfl

theorem balance_append (first second : List Delta) (id : MemberId) :
    balance (first ++ second) id = balance first id + balance second id := by
  simp only [balance, List.countP_append]
  omega

theorem balance_singleton (change : Delta) (id : MemberId) :
    balance [change] id = change.enter.presence id - change.leave.presence id := by
  have hcount : ∀ members : MemberSet,
      (if members.contains id = true then 1 else 0 : Nat) = members.presence id := by
    intro members
    rw [MemberSet.presence]
    change ((if members.contains id = true then 1 else 0 : Nat) : Int) =
      if members.contains id = true then 1 else 0
    split <;> rfl
  simp only [balance, List.countP_singleton, hcount]

end Delta

namespace MemberSet

variable {older newer members : MemberSet} {id : MemberId}

theorem presence_of_mem (hmem : id ∈ members) : members.presence id = 1 := if_pos hmem

theorem presence_of_not_mem (hmem : id ∉ members) : members.presence id = 0 := if_neg hmem

theorem presence_eq_zero_or_one (members : MemberSet) (id : MemberId) :
    members.presence id = 0 ∨ members.presence id = 1 := by
  by_cases hmem : id ∈ members
  · exact .inr (presence_of_mem hmem)
  · exact .inl (presence_of_not_mem hmem)

theorem presence_eq_one_iff : members.presence id = 1 ↔ id ∈ members := by
  by_cases hmem : id ∈ members
  · exact iff_of_true (presence_of_mem hmem) hmem
  · refine iff_of_false (fun hone => ?_) hmem
    rw [presence_of_not_mem hmem] at hone
    cases hone

theorem presence_union (hdisjoint : id ∈ newer → id ∉ older) :
    presence (older.union newer) id = older.presence id + newer.presence id := by
  have hbounds := presence_eq_zero_or_one (older.union newer) id
  have holder := presence_eq_zero_or_one older id
  have hnewer := presence_eq_zero_or_one newer id
  have hmem : id ∈ older.union newer ↔ id ∈ older ∨ id ∈ newer := mem_union_iff
  simp only [← presence_eq_one_iff] at hmem hdisjoint
  omega

theorem presence_sdiff (hsubset : id ∈ older → id ∈ newer) :
    presence (newer.sdiff older) id = newer.presence id - older.presence id := by
  have hbounds := presence_eq_zero_or_one (newer.sdiff older) id
  have holder := presence_eq_zero_or_one older id
  have hnewer := presence_eq_zero_or_one newer id
  have hmem : id ∈ newer.sdiff older ↔ id ∈ newer ∧ id ∉ older := mem_sdiff_iff
  simp only [← presence_eq_one_iff] at hmem hsubset
  omega

/-- Whoever is in one membership and not in another one makes all the difference that is possible. -/
theorem mem_sdiff_iff_presence : id ∈ newer.sdiff older ↔ newer.presence id - older.presence id = 1 := by
  have holder := presence_eq_zero_or_one older id
  have hnewer := presence_eq_zero_or_one newer id
  rw [mem_sdiff_iff, ← presence_eq_one_iff, ← presence_eq_one_iff]
  omega

end MemberSet

/-- A delta that fits counts for everybody: whom it brings in is outside, and whom it takes out is there. -/
theorem Control.presence_of_fits {change : Delta} {owner : MemberId} {members : MemberSet}
    (hfits : (Control.delta change).Fits owner (some members)) (id : MemberId) :
    MemberSet.presence ((members.sdiff change.leave).union change.enter) id =
      members.presence id + Delta.balance [change] id := by
  obtain ⟨_, ⟨⟩, henter, hleave, -⟩ := hfits
  have houtside : id ∈ change.enter → id ∉ members.sdiff change.leave :=
    fun hmem hstays => henter id hmem (MemberSet.mem_sdiff_iff.1 hstays).1
  calc
    MemberSet.presence ((members.sdiff change.leave).union change.enter) id =
        MemberSet.presence (members.sdiff change.leave) id + change.enter.presence id :=
      MemberSet.presence_union houtside
    _ = members.presence id - change.leave.presence id + change.enter.presence id := by
      rw [MemberSet.presence_sdiff (hleave id)]
    _ = members.presence id + Delta.balance [change] id := by
      rw [Delta.balance_singleton]
      omega

namespace Moment

/-- A member is inside at two moments and all the time between them. -/
def Inside (id : MemberId) (moment : Moment) (first last : Nat) : Prop :=
  ∀ count, first ≤ count → count ≤ last → (moment.after count).session.standing id ≠ none

instance (id : MemberId) (moment : Moment) (first last : Nat) : Decidable (moment.Inside id first last) :=
  Nat.decidableLoHiLe first last fun count => (moment.after count).session.standing id ≠ none

variable {moment : Moment} {id : MemberId} {older members : MemberSet} {first last : Nat}

/-- All that a moment of a stint can do to what the member sees: it takes one delta at most. -/
theorem next_of_inside (howned : moment.session.server.Owned)
    (hstanding : moment.session.standing id = some members)
    (hinside : moment.next.session.standing id ≠ none) :
    moment.drops id = false ∧ ∃ changes : List Delta, ∃ newer : MemberSet,
      (moment.taken? id).toList = changes.map .delta ∧ moment.next.session.standing id = some newer ∧
        ∀ other, newer.presence other = members.presence other + Delta.balance changes other := by
  rw [standing_next howned, sees] at hinside ⊢
  cases hdrop : moment.drops id with
  | true =>
      rw [hdrop] at hinside
      exact absurd rfl hinside
  | false =>
      rw [hdrop, if_neg Bool.false_ne_true] at hinside
      refine ⟨rfl, ?_⟩
      rw [if_neg Bool.false_ne_true]
      cases htaken : moment.taken? id with
      | none => exact ⟨[], members, rfl, hstanding, fun other => (Int.add_zero _).symm⟩
      | some change =>
          have hfits := fits_of_taken? howned htaken
          rw [hstanding] at hfits
          rw [htaken, hstanding] at hinside
          cases change with
          | selfEnter => cases hfits
          | selfLeave => exact absurd rfl hinside
          | delta change =>
              refine ⟨[change], (members.sdiff change.leave).union change.enter, rfl, ?_,
                Control.presence_of_fits hfits⟩
              rw [hstanding]
              rfl

/-- Between two moments of a stint the channel takes nothing but deltas, and they account for all that the
member sees change. -/
theorem exists_deltas_of_inside (howned : moment.session.server.Owned) (hle : first ≤ last)
    (hinside : moment.Inside id first last)
    (holder : (moment.after first).session.standing id = some older) :
    ∃ changes : List Delta, ∃ newer : MemberSet,
      moment.history id last = moment.history id first ++ changes.map .delta ∧
        (moment.after last).session.standing id = some newer ∧
        ∀ other, newer.presence other = older.presence other + Delta.balance changes other := by
  induction last, hle using Nat.le_induction with
  | base =>
      refine ⟨[], older, (List.append_nil _).symm, holder, fun other => ?_⟩
      rw [Delta.balance_nil, Int.add_zero]
  | succ last hle ih =>
      obtain ⟨changes, between, hhistory, hbetween, hpresence⟩ :=
        ih fun count hfirst hlast => hinside count hfirst (Nat.le_succ_of_le hlast)
      obtain ⟨hdrop, more, newer, htaken, hnewer, hstep⟩ := next_of_inside (owned_after howned last)
        hbetween (hinside (last + 1) (Nat.le_succ_of_le hle) (Nat.le_refl _))
      refine ⟨changes ++ more, newer, ?_, hnewer, fun other => ?_⟩
      · rw [history, hdrop, if_neg Bool.false_ne_true, hhistory, htaken, List.map_append,
          List.append_assoc]
      · rw [hstep, hpresence, Delta.balance_append, Int.add_assoc]

/-- **Net effects.** What a channel takes between two moments of a stint of its member, in whatever session,
are deltas, which may bring in and take out the same ids again and again. For every id, those that bring it in
and those that take it out are as many, or differ by one. The change from the membership that was seen first to
the one that is seen last adds the ids that were brought in once more, and removes those that were taken out
once more. The moments are those of the session: a program that comes to an end within some limit does so
through them. -/
theorem changes_are_net_effects (logger : Log.Logger) (owner : MemberId) (program : Program) :
    let start : Moment := ⟨.onChannel logger owner, .run program, []⟩
    (∀ id first last older newer, first ≤ last → start.Inside id first last →
      (start.after first).session.standing id = some older →
      (start.after last).session.standing id = some newer →
        ∃ changes : List Delta,
          start.history id last = start.history id first ++ changes.map .delta ∧
            ∀ other, (Delta.balance changes other = -1 ∨ Delta.balance changes other = 0 ∨
                Delta.balance changes other = 1) ∧
              (other ∈ (older.changeTo newer).added ↔ Delta.balance changes other = 1) ∧
              (other ∈ (older.changeTo newer).removed ↔ Delta.balance changes other = -1)) ∧
      ∀ limit verdict final,
        program.run (Session.exec limit) (.onChannel logger owner) = some (verdict, final) →
          ∃ count, start.after count = ⟨final, .run (.finish verdict), []⟩ := by
  intro start
  have howned : start.session.server.Owned := Session.owned_onChannel logger owner
  constructor
  · intro id first last older newer hle hinside holder hnewer
    obtain ⟨changes, seen, hhistory, hseen, hpresence⟩ :=
      exists_deltas_of_inside howned hle hinside holder
    cases hseen.symm.trans hnewer
    refine ⟨changes, hhistory, fun other => ?_⟩
    have hsum := hpresence other
    have hbefore := MemberSet.presence_eq_zero_or_one older other
    have hafter := MemberSet.presence_eq_zero_or_one newer other
    refine ⟨by omega, ?_, ?_⟩
    · refine MemberSet.mem_sdiff_iff_presence.trans ?_
      omega
    · refine MemberSet.mem_sdiff_iff_presence.trans ?_
      omega
  · intro limit verdict final hrun
    exact Session.leads_to_verdict [] hrun

/-- A member enters, then two others do, and one of these is replaced by a third one. -/
def replacingProgram (owner second third fourth : MemberId) : Program :=
  .script
    [.notify owner (.ok (.control .selfEnter)),
      .notify owner ((Control.ofSets (.ofList [second, third]) .empty).map .control),
      .notify owner ((Control.ofSets (.ofList [fourth]) (.ofList [second])).map .control)]
    (.ok true)

/-- The one who has come and gone is in neither half of the change. The program comes to its end. -/
theorem visits_cancel_out :
    let start : Moment := ⟨.onChannel ⟨.absent, .debug⟩ [65], .run (replacingProgram [65] [66] [67] [68]), []⟩
    3 ≤ 13 ∧ start.Inside [65] 3 13 ∧
      (start.after 3).session.standing [65] = some (.ofList [[65]]) ∧
      (start.after 13).session.standing [65] = some (.ofList [[65], [67], [68]]) ∧
      (∃ changes : List Delta,
        start.history [65] 13 = start.history [65] 3 ++ changes.map .delta ∧
          Delta.balance changes [66] = 0 ∧ Delta.balance changes [67] = 1 ∧
          Delta.balance changes [68] = 1) ∧
      ∃ final count, (replacingProgram [65] [66] [67] [68]).run (Session.exec 9)
          (.onChannel ⟨.absent, .debug⟩ [65]) = some (.ok true, final) ∧
        start.after count = ⟨final, .run (.finish (.ok true)), []⟩ := by
  have hinside : Inside [65]
      ⟨.onChannel ⟨.absent, .debug⟩ [65], .run (replacingProgram [65] [66] [67] [68]), []⟩ 3 13 := by
    decide
  obtain ⟨hnet, hends⟩ :=
    changes_are_net_effects ⟨.absent, .debug⟩ [65] (replacingProgram [65] [66] [67] [68])
  obtain ⟨changes, hhistory, hchanges⟩ :=
    hnet [65] 3 13 (.ofList [[65]]) (.ofList [[65], [67], [68]]) (by decide) hinside rfl rfl
  obtain ⟨count, hcount⟩ := hends 9 (.ok true) _ rfl
  refine ⟨by decide, hinside, rfl, rfl, ⟨changes, hhistory, ?_, ?_, ?_⟩, _, count, rfl, hcount⟩
  · obtain ⟨hbounds, hadded, hremoved⟩ := hchanges [66]
    have hnotAdded := mt hadded.2 (by decide)
    have hnotRemoved := mt hremoved.2 (by decide)
    omega
  · exact (hchanges [67]).2.1.1 (by decide)
  · exact (hchanges [68]).2.1.1 (by decide)

end Moment

end GroupChat
