import GroupChat.Proofs.Announcement
import GroupChat.Proofs.Packets

/-!
# Requests that do not conflict

The order in which two requests are processed matters only if one of them is about the sender of the
other, or if one wants somebody to enter whom the other wants to leave.
-/

namespace GroupChat

/-- Requests of two senders neither of which is about the other sender, and which do not pull anybody in
two directions. -/
structure Control.Independent (change₁ : Control) (sender₁ : MemberId) (change₂ : Control)
    (sender₂ : MemberId) : Prop where
  spares₁ : sender₁ ∉ change₂.entering sender₂ ∧ sender₁ ∉ change₂.leaving sender₂
  spares₂ : sender₂ ∉ change₁.entering sender₁ ∧ sender₂ ∉ change₁.leaving sender₁
  enter₁ : (change₁.entering sender₁).isDisjoint (change₂.leaving sender₂) = true
  enter₂ : (change₂.entering sender₂).isDisjoint (change₁.leaving sender₁) = true

theorem MemberSet.sdiff_union_comm {members enter₁ leave₁ enter₂ leave₂ : MemberSet}
    (henter₁ : enter₁.isDisjoint leave₂ = true) (henter₂ : enter₂.isDisjoint leave₁ = true) :
    (((members.sdiff leave₁).union enter₁).sdiff leave₂).union enter₂ =
      (((members.sdiff leave₂).union enter₂).sdiff leave₁).union enter₁ := by
  apply MemberSet.eq_of_mem_iff
  intro id
  have hid₁ := MemberSet.isDisjoint_iff_forall.1 henter₁ id
  have hid₂ := MemberSet.isDisjoint_iff_forall.1 henter₂ id
  simp only [MemberSet.mem_union_iff, MemberSet.mem_sdiff_iff]
  tauto

namespace Packet

/-- A request does not move those whom it is not about. -/
theorem mem_membersAfter_of_spared {sender : MemberId} {change : Control} {id : MemberId}
    (members : MemberSet)
    (hspared : id ∉ change.entering sender ∧ id ∉ change.leaving sender) :
    id ∈ (⟨sender, .control change⟩ : Packet).membersAfter members ↔ id ∈ members := by
  by_cases heffective : sender ∈ members ∨ change = .selfEnter
  · rw [membersAfter_of_effective heffective, MemberSet.mem_union_iff, MemberSet.mem_sdiff_iff]
    simp only [hspared.1, hspared.2, not_false_eq_true, and_true, or_false]
  · rw [not_or] at heffective
    rw [membersAfter_of_ignored heffective.1 heffective.2]

theorem membersAfter_comm {sender₁ sender₂ : MemberId} {change₁ change₂ : Control}
    (hindependent : change₁.Independent sender₁ change₂ sender₂) (members : MemberSet) :
    let packet₁ : Packet := ⟨sender₁, .control change₁⟩
    let packet₂ : Packet := ⟨sender₂, .control change₂⟩
    packet₂.membersAfter (packet₁.membersAfter members) =
      packet₁.membersAfter (packet₂.membersAfter members) := by
  intro packet₁ packet₂
  -- Whether a request has any effect depends on its sender only, whom the other request spares.
  have hpresent₁ : sender₁ ∈ packet₂.membersAfter members ↔ sender₁ ∈ members :=
    mem_membersAfter_of_spared members hindependent.spares₁
  have hpresent₂ : sender₂ ∈ packet₁.membersAfter members ↔ sender₂ ∈ members :=
    mem_membersAfter_of_spared members hindependent.spares₂
  by_cases hfirst : sender₁ ∈ members ∨ change₁ = .selfEnter
  · by_cases hsecond : sender₂ ∈ members ∨ change₂ = .selfEnter
    · rw [membersAfter_of_effective (hsecond.imp_left hpresent₂.2), membersAfter_of_effective hfirst,
        membersAfter_of_effective (hfirst.imp_left hpresent₁.2), membersAfter_of_effective hsecond]
      exact MemberSet.sdiff_union_comm hindependent.enter₁ hindependent.enter₂
    · rw [not_or] at hsecond
      rw [membersAfter_of_ignored (hpresent₂.not.2 hsecond.1) hsecond.2,
        membersAfter_of_ignored hsecond.1 hsecond.2]
  · rw [not_or] at hfirst
    rw [membersAfter_of_ignored (hpresent₁.not.2 hfirst.1) hfirst.2,
      membersAfter_of_ignored hfirst.1 hfirst.2]

end Packet

namespace Server

variable {server next : Server} {first second : Nat} {packet : Packet}

theorem mem_take_iff {α : Type} {items : List α} {count : Nat} {item : α} :
    item ∈ items.take count ↔ ∃ index < count, items[index]? = some item := by
  rw [List.mem_iff_getElem?]
  simp only [List.getElem?_take, Option.ite_none_right_eq_some]

/-- A packet that is due stays so when another one is processed. -/
theorem Due.of_eraseIdx (hdue : server.Due first packet) (hne : first ≠ second)
    (hincoming : next.incoming = server.incoming.eraseIdx second) :
    next.Due (if first < second then first else first - 1) packet := by
  constructor
  · rw [hincoming, List.getElem?_eraseIdx]
    by_cases hlt : first < second
    · rw [if_pos hlt, if_pos hlt, hdue.pending]
    · rw [if_neg hlt, if_neg (by omega), Nat.sub_add_cancel (by omega), hdue.pending]
  · intro earlier hmem
    apply hdue.first
    rw [hincoming] at hmem
    obtain ⟨index, hindex, hearlier⟩ := mem_take_iff.1 hmem
    rw [List.getElem?_eraseIdx] at hearlier
    split at hearlier
    · exact mem_take_iff.2 ⟨index, by split at hindex <;> omega, hearlier⟩
    · exact mem_take_iff.2 ⟨index + 1, by split at hindex <;> omega, hearlier⟩

/-- Two packets that are due can be processed one after the other. -/
theorem record_receive_receive {packet₁ packet₂ : Packet} (hfirst : server.Due first packet₁)
    (hsecond : server.Due second packet₂) (hne : second ≠ first) :
    let moves : List Move :=
      [.receive first, .receive (if second < first then second else second - 1)]
    server.record moves =
        [.processed server.members packet₁,
          .processed (packet₁.membersAfter server.members) packet₂] ∧
      (server.run moves).members = packet₂.membersAfter (packet₁.membersAfter server.members) := by
  intro moves
  obtain ⟨next, -, -, hincoming, hmembers, hstep⟩ := receive_eq_ok_of_due hfirst
  obtain ⟨final, -, -, -, hfinal, hlast⟩ :=
    receive_eq_ok_of_due (hsecond.of_eraseIdx hne hincoming)
  simp only [moves, record, run, hstep, hlast, hfinal, hmembers]
  exact ⟨rfl, trivial⟩

/-- **Only conflicts depend on the order.** Of two packets that are due and whose requests are
independent either one can be processed first, and the membership is the same in the end. -/
theorem independent_requests_commute {sender₁ sender₂ : MemberId} {change₁ change₂ : Control}
    (hbefore : first < second) (hfirst : server.Due first ⟨sender₁, .control change₁⟩)
    (hsecond : server.Due second ⟨sender₂, .control change₂⟩)
    (hindependent : change₁.Independent sender₁ change₂ sender₂) :
    let packet₁ : Packet := ⟨sender₁, .control change₁⟩
    let packet₂ : Packet := ⟨sender₂, .control change₂⟩
    server.record [.receive first, .receive (second - 1)] =
        [.processed server.members packet₁,
          .processed (packet₁.membersAfter server.members) packet₂] ∧
      server.record [.receive second, .receive first] =
        [.processed server.members packet₂,
          .processed (packet₂.membersAfter server.members) packet₁] ∧
      (server.run [.receive first, .receive (second - 1)]).members =
        (server.run [.receive second, .receive first]).members := by
  intro packet₁ packet₂
  obtain ⟨hrecord, hmembers⟩ := record_receive_receive hfirst hsecond (by omega)
  obtain ⟨hrecord', hmembers'⟩ := record_receive_receive hsecond hfirst (by omega)
  rw [if_neg (by omega)] at hrecord hmembers
  rw [if_pos hbefore] at hrecord' hmembers'
  exact ⟨hrecord, hrecord',
    by rw [hmembers, hmembers', Packet.membersAfter_comm hindependent]⟩

/-- Two members want a third one to leave. -/
theorem removals_by_two_members_commute :
    let removal : Control := .delta ⟨OrderedSet.empty, OrderedSet.singleton [3], rfl, rfl⟩
    let packet₁ : Packet := ⟨[1], .control removal⟩
    let packet₂ : Packet := ⟨[2], .control removal⟩
    let members : MemberSet := OrderedSet.ofList [[1], [2], [3]]
    let server : Server := { members, incoming := [packet₁, packet₂] }
    0 < 1 ∧ server.Due 0 packet₁ ∧ server.Due 1 packet₂ ∧ removal.Independent [1] removal [2] ∧
      server.record [.receive 0, .receive 0] =
        [.processed members packet₁, .processed (packet₁.membersAfter members) packet₂] ∧
      server.record [.receive 1, .receive 0] =
        [.processed members packet₂, .processed (packet₂.membersAfter members) packet₁] ∧
      (server.run [.receive 0, .receive 0]).members =
        (server.run [.receive 1, .receive 0]).members := by
  intro removal packet₁ packet₂ members server
  have hfirst : server.Due 0 packet₁ := ⟨rfl, by simp⟩
  have hsecond : server.Due 1 packet₂ := ⟨rfl, by simp [server, packet₁, packet₂]⟩
  have hindependent : removal.Independent [1] removal [2] := by
    constructor <;> decide
  have hcommute := independent_requests_commute Nat.zero_lt_one hfirst hsecond hindependent
  rw [Nat.sub_self] at hcommute
  exact ⟨Nat.zero_lt_one, hfirst, hsecond, hindependent, hcommute⟩

end Server

end GroupChat
