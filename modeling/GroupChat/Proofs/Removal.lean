import GroupChat.Proofs.Conflict
import GroupChat.Proofs.Onlookers

/-!
# Who can be removed

A channel does not accept a request of its owner to add or to remove itself, so no packet that is pending
asks for that. What a delta finds when it is processed may be another membership than the one it was
sent under. Main statement: even so it never removes its sender, and the group becomes empty only when
its last member leaves.
-/

namespace GroupChat

/-- A channel hands on only what its owner may ask for. -/
theorem Channel.accepted_of_uplinks {channel : Channel} {action : Action}
    (huplinks : channel.uplinks action = true) :
    action.accepted channel.owner channel.standing = true := by
  unfold uplinks refusal? at huplinks
  cases htransport : channel.transport with
  | uplink =>
      by_contra hrejected
      rw [htransport] at huplinks
      simp only [hrejected] at huplinks
      cases action <;> cases huplinks
  | absent => simp [htransport] at huplinks
  | outlet label carry => simp [htransport] at huplinks

namespace Packet

/-- A delta that is not about its own sender, or anything else. -/
def SparesSender (packet : Packet) : Prop :=
  ∀ change, packet.action = .control (.delta change) →
    packet.sender ∉ change.enter ∧ packet.sender ∉ change.leave

variable {packet : Packet} {members : MemberSet}

theorem sparesSender_of_accepted {sender : MemberId} {standing : Standing} {action : Action}
    (haccepted : action.accepted sender standing = true) :
    (⟨sender, action⟩ : Packet).SparesSender := by
  rintro change rfl
  simp only [Action.accepted, Control.accepted, Bool.and_eq_true, Bool.not_eq_true'] at haccepted
  exact ⟨Bool.eq_false_iff.1 haccepted.1.2, Bool.eq_false_iff.1 haccepted.2⟩

/-- Whoever sends a delta as a member is one after it. -/
theorem mem_membersAfter_of_sparesSender {sender : MemberId} {change : Delta}
    (hspares : (⟨sender, .control (.delta change)⟩ : Packet).SparesSender)
    (hsender : sender ∈ members) :
    sender ∈ (⟨sender, .control (.delta change)⟩ : Packet).membersAfter members :=
  (mem_membersAfter_of_spared members (hspares change rfl)).2 hsender

/-- Only the last member can empty the group, by leaving it. -/
theorem eq_singleton_of_membersAfter_eq_empty (hspares : packet.SparesSender)
    (hmembers : members ≠ OrderedSet.empty) (hafter : packet.membersAfter members = OrderedSet.empty) :
    packet.action = .control .selfLeave ∧ members = OrderedSet.singleton packet.sender := by
  obtain ⟨sender, action⟩ := packet
  cases action with
  | raw payload recipients => exact absurd hafter hmembers
  | control change =>
      -- Who asks from outside changes nothing, unless it enters.
      have heffective : sender ∈ members ∨ change = .selfEnter := by
        by_contra hignored
        rw [not_or] at hignored
        exact hmembers ((membersAfter_of_ignored hignored.1 hignored.2).symm.trans hafter)
      have hnone : ∀ id, id ∉ (⟨sender, .control change⟩ : Packet).membersAfter members := by
        intro id
        rw [hafter]
        exact MemberSet.not_mem_empty id
      cases change with
      | selfEnter =>
          have hsender := hnone sender
          rw [membersAfter_of_effective heffective, MemberSet.mem_union_iff] at hsender
          exact absurd (Or.inr (MemberSet.mem_singleton_iff.2 rfl)) hsender
      | selfLeave =>
          refine ⟨rfl, MemberSet.eq_of_mem_iff fun id => ?_⟩
          have hid := hnone id
          rw [membersAfter_of_effective heffective, MemberSet.mem_union_iff, MemberSet.mem_sdiff_iff,
            Control.leaving, Control.entering, MemberSet.mem_singleton_iff] at hid
          rw [MemberSet.mem_singleton_iff]
          constructor
          · intro hmem
            by_contra hne
            exact hid (Or.inl ⟨hmem, hne⟩)
          · rintro rfl
            exact heffective.resolve_right Control.noConfusion
      | delta change =>
          have hsender := heffective.resolve_right Control.noConfusion
          exact absurd (mem_membersAfter_of_sparesSender hspares hsender) (hnone sender)

end Packet

namespace Server

variable {start server next : Server} {record later : List Occurrence}

/-- Whatever is pending was so before, or has just been sent. -/
theorem Handles.mem_incoming {move : Move} {occurrence : Option Occurrence}
    (hhandles : server.Handles move next occurrence) {packet : Packet} (hmem : packet ∈ next.incoming) :
    packet ∈ server.incoming ∨
      (server.mailbox packet.sender).channel.uplinks packet.action = true := by
  cases hhandles with
  | accepted sent hmove huplinks hincoming hmembers =>
      rw [hincoming] at hmem
      rcases List.mem_append.1 hmem with hearlier | hnew
      · exact Or.inl hearlier
      · rw [List.mem_singleton.1 hnew]
        exact Or.inr huplinks
  | processed index taken hmove hdue hincoming hmembers =>
      rw [hincoming] at hmem
      exact Or.inl (List.mem_of_mem_eraseIdx hmem)
  | delivered id notice standing hincoming hmembers => exact Or.inl (hincoming ▸ hmem)
  | quiet hincoming hmembers => exact Or.inl (hincoming ▸ hmem)

/-- A move empties the group only by letting its last member leave. -/
theorem Handles.last_leave {move : Move} {occurrence : Option Occurrence}
    (hhandles : server.Handles move next occurrence)
    (hspares : ∀ packet ∈ server.incoming, packet.SparesSender)
    (hmembers : server.members ≠ OrderedSet.empty) (hafter : next.members = OrderedSet.empty) :
    ∃ index sender, move = .receive index ∧
      server.Due index ⟨sender, .control .selfLeave⟩ ∧
      server.members = OrderedSet.singleton sender ∧
      occurrence =
        some (.processed (OrderedSet.singleton sender) ⟨sender, .control .selfLeave⟩) := by
  cases hhandles with
  | accepted sent hmove huplinks hincoming hsame => exact absurd (hsame.symm.trans hafter) hmembers
  | processed index packet hmove hdue hincoming hchange =>
      have hpending : packet ∈ server.incoming := List.mem_of_getElem? hdue.pending
      obtain ⟨haction, hlast⟩ := Packet.eq_singleton_of_membersAfter_eq_empty
        (hspares packet hpending) hmembers (hchange.symm.trans hafter)
      obtain ⟨sender, action⟩ := packet
      subst haction
      exact ⟨index, sender, hmove, hdue, hlast, by rw [hlast]⟩
  | delivered id notice standing hincoming hsame => exact absurd (hsame.symm.trans hafter) hmembers
  | quiet hincoming hsame => exact absurd (hsame.symm.trans hafter) hmembers

/-- What comes of a server that already was on its way has come of it since it started. -/
theorem Evolves.trans (hbefore : Evolves start record server) (hlater : Evolves server later next) :
    Evolves start (record ++ later) next := by
  induction hlater with
  | refl => rwa [List.append_nil]
  | move _ move ih =>
      rw [← List.append_assoc]
      exact ih.move move
  | notify _ hchannel hnotify ih => exact ih.notify hchannel hnotify
  | install _ id transport ih => exact ih.install id transport

/-- No pending packet asks its own sender to enter or to leave by a delta. -/
theorem Evolves.sparesSender (hevolves : Evolves {} record server) :
    ∀ packet ∈ server.incoming, packet.SparesSender := by
  induction hevolves with
  | refl => exact fun packet hmem => absurd hmem List.not_mem_nil
  | move hbefore move ih =>
      intro packet hmem
      rcases (step_handles _ move).mem_incoming hmem with hearlier | huplinks
      · exact ih packet hearlier
      · have haccepted := Channel.accepted_of_uplinks huplinks
        rw [hbefore.owned packet.sender] at haccepted
        exact Packet.sparesSender_of_accepted haccepted
  | notify hbefore hchannel hnotify ih =>
      rw [eq_modifyChannel_of_notify hnotify]
      exact ih
  | install hbefore id transport ih => exact ih

/-- Between a state with members and one without any the last member has left. -/
theorem Evolves.last_leave (hbefore : Evolves {} record server) (hlater : Evolves server later next)
    (hmembers : server.members ≠ OrderedSet.empty) (hafter : next.members = OrderedSet.empty) :
    ∃ sender, .processed (OrderedSet.singleton sender) ⟨sender, .control .selfLeave⟩ ∈ later := by
  induction hlater with
  | refl => exact absurd hafter hmembers
  | @move later middle hmiddle move ih =>
      by_cases hempty : middle.members = OrderedSet.empty
      · obtain ⟨sender, hmem⟩ := ih hempty
        exact ⟨sender, List.mem_append_left _ hmem⟩
      · have hspares := (hbefore.trans hmiddle).sparesSender
        obtain ⟨-, sender, -, -, -, hrecord⟩ :=
          (step_handles middle move).last_leave hspares hempty hafter
        refine ⟨sender, List.mem_append_right _ ?_⟩
        rw [hrecord]
        exact List.mem_singleton_self _
  | notify hmiddle hchannel hnotify ih =>
      rw [eq_modifyChannel_of_notify hnotify] at hafter
      exact ih hafter
  | install hmiddle id transport ih => exact ih hafter

/-- A delta that is processed has no effect, or leaves its sender in the group. -/
theorem receive_delta {index : Nat} {sender : MemberId} {change : Delta}
    (hspares : ∀ packet ∈ server.incoming, packet.SparesSender)
    (hdue : server.Due index ⟨sender, .control (.delta change)⟩) :
    ∃ next lines, server.receive index = .ok (next, lines) ∧
      (sender ∉ server.members ∧ next.members = server.members ∨
        sender ∈ server.members ∧ sender ∈ next.members) := by
  obtain ⟨next, lines, hok, -, hmembers, -⟩ := receive_eq_ok_of_due hdue
  refine ⟨next, lines, hok, ?_⟩
  rw [hmembers]
  by_cases hsender : sender ∈ server.members
  · right
    have hpending := hspares _ (List.mem_of_getElem? hdue.pending)
    exact ⟨hsender, Packet.mem_membersAfter_of_sparesSender hpending hsender⟩
  · left
    exact ⟨hsender, Packet.membersAfter_of_ignored hsender Control.noConfusion⟩

/-- **Deltas spare their sender.** Whatever becomes of a server, no pending delta is about its own sender.
Nothing but a packet that is due can be processed, and a delta that is due is ignored because its sender
is not a member, or its sender is a member before it and after it. A group with members becomes empty
only when the last one leaves. -/
theorem deltas_spare_their_sender :
    (∀ session, Session.Reached session →
      (∃ record, Evolves {} record session.server) ∧
      ∀ limit command outcome events next, command.ThroughServer →
        Session.perform limit command session = some (outcome, events, next) →
        ∃ later, Evolves session.server later next.server) ∧
    ∀ record server, Evolves {} record server →
      (∀ sender change, (⟨sender, .control (.delta change)⟩ : Packet) ∈ server.incoming →
        sender ∉ change.enter ∧ sender ∉ change.leave) ∧
      (∀ index next lines, server.receive index = .ok (next, lines) →
        ∃ packet, server.Due index packet) ∧
      (∀ index sender change, server.Due index ⟨sender, .control (.delta change)⟩ →
        ∃ next lines, server.receive index = .ok (next, lines) ∧
          (sender ∉ server.members ∧ next.members = server.members ∨
            sender ∈ server.members ∧ sender ∈ next.members)) ∧
      (server.members ≠ OrderedSet.empty →
        (∀ move, (server.step move).1.members = OrderedSet.empty →
          ∃ index sender, move = .receive index ∧
            server.Due index ⟨sender, .control .selfLeave⟩ ∧
            server.members = OrderedSet.singleton sender) ∧
        ∀ later next, Evolves server later next → next.members = OrderedSet.empty →
          ∃ sender,
            .processed (OrderedSet.singleton sender) ⟨sender, .control .selfLeave⟩ ∈ later) := by
  constructor
  · intro session hreached
    refine ⟨hreached.evolves, fun limit command outcome events next hcommand hperform => ?_⟩
    obtain ⟨moves, -, hserver⟩ := (Session.leads_perform hreached.sound hcommand hperform).1
    have hstart : Evolves session.server [] session.server := .refl
    exact ⟨_, hserver ▸ hstart.run moves⟩
  · intro record server hevolves
    have hspares := hevolves.sparesSender
    refine ⟨fun sender change hmem => hspares _ hmem change rfl, fun index next lines hok => ?_,
      fun index sender change hdue => receive_delta hspares hdue, fun hmembers => ⟨?_, ?_⟩⟩
    · rcases server.due_or_blocked index with hdue | hblocked
      · exact hdue
      · obtain ⟨error, herror⟩ := receive_of_blocked hblocked
        rw [herror] at hok
        cases hok
    · intro move hafter
      obtain ⟨index, sender, hmove, hdue, hlast, -⟩ :=
        (step_handles server move).last_leave hspares hmembers hafter
      exact ⟨index, sender, hmove, hdue, hlast⟩
    · intro later next hlater hafter
      exact hevolves.last_leave hlater hmembers hafter

/-- Two members are there, and one of them has left before its removal by the other is processed. Then
the other one leaves too. -/
theorem stale_removal_spares_its_sender :
    let removal : Delta := ⟨OrderedSet.empty, OrderedSet.singleton [1], rfl, rfl⟩
    let addition : Delta := ⟨OrderedSet.singleton [2], OrderedSet.empty, rfl, rfl⟩
    let moves : List Move :=
      [.send [1] (.control .selfEnter), .receive 0, .deliver [1],
        .send [1] (.control (.delta addition)), .receive 0, .deliver [2],
        .send [2] (.control (.delta removal)), .send [1] (.control .selfLeave), .receive 1]
    let departure : List Move := [.send [2] (.control .selfLeave), .receive 0, .receive 0]
    let server : Server := run {} moves
    Evolves {} (Server.record {} moves) server ∧
      server.incoming = [⟨[2], .control (.delta removal)⟩] ∧
      server.members = OrderedSet.singleton [2] ∧ (server.run departure).members = OrderedSet.empty ∧
      (∃ next lines, server.receive 0 = .ok (next, lines) ∧
        ([2] ∉ server.members ∧ next.members = server.members ∨
          [2] ∈ server.members ∧ [2] ∈ next.members)) ∧
      ∃ sender, .processed (OrderedSet.singleton sender) ⟨sender, .control .selfLeave⟩ ∈
        server.record departure := by
  intro removal addition moves departure
  dsimp only
  have hevolves := evolves_run moves
  have hincoming : (run {} moves).incoming = [⟨[2], .control (.delta removal)⟩] := by decide
  have hmembers : (run {} moves).members = OrderedSet.singleton [2] := by decide
  have hempty : ((run {} moves).run departure).members = OrderedSet.empty := by decide
  generalize Server.record {} moves = earlier at *
  generalize run {} moves = server at *
  obtain ⟨-, -, hdelta, hlast⟩ := deltas_spare_their_sender.2 earlier server hevolves
  have hdue : server.Due 0 ⟨[2], .control (.delta removal)⟩ :=
    ⟨by rw [hincoming]; rfl, fun earlier hmem => absurd hmem List.not_mem_nil⟩
  have hstart : Evolves server [] server := .refl
  have hinside : server.members ≠ OrderedSet.empty := by
    rw [hmembers]
    decide
  exact ⟨hevolves, hincoming, hmembers, hempty, hdelta 0 [2] removal hdue,
    (hlast hinside).2 _ _ (hstart.run departure) hempty⟩

end Server

end GroupChat
