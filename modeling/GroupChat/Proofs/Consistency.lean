import GroupChat.Proofs.Step

/-!
# Queues lead to the membership

The invariant of all runs: applied to what its channel sees, what waits for a member leads exactly to
the membership, or to being outside. From it follows the history of every member: what it was given so
far, followed by what waits for it, is its share of all that was processed, and every notice arrives
under the view of the membership that it was posted for.
-/

namespace GroupChat

theorem Packet.after_share (packet : Packet) (members : MemberSet) (id : MemberId) :
    Standing.after id (packet.share members id) (members.seenBy id) =
      .ok ((packet.membersAfter members).seenBy id) := by
  obtain ⟨sender, action⟩ := packet
  cases action with
  | raw payload recipients =>
      simp only [Packet.share, Packet.membersAfter]
      split <;> rfl
  | control change => exact MemberSet.after_announcements members _ id

/-- A notice that is in its place is taken. -/
theorem Channel.absorb_eq_ok {channel : Channel} {notice : Notice} {rest : List Notice}
    {final : Standing}
    (hok : Standing.after channel.owner (notice :: rest) channel.standing = .ok final) :
    ∃ next line, channel.absorb notice = .ok (next, line) := by
  cases notice with
  | raw payload sender =>
      by_cases hjoined : channel.isJoined = true
      · exact ⟨_, _, by simp only [absorb, hjoined, if_true]; rfl⟩
      · exact ⟨_, _, by simp only [absorb, hjoined, Bool.false_eq_true, if_false]; rfl⟩
  | control change =>
      obtain ⟨landed, happly, -⟩ := Standing.apply_of_after_cons hok
      exact ⟨_, _, by simp only [absorb, happly]; rfl⟩

/-- A member's share of a packet, each notice with what the member sees once it has arrived. -/
def Packet.views (packet : Packet) (members : MemberSet) (id : MemberId) :
    List (Notice × Standing) :=
  Standing.forecast id (members.seenBy id) (packet.share members id)

namespace Server

/-- What waits for each member leads from what it sees to what it has to see. -/
structure Consistent (server : Server) : Prop where
  wired : server.Wired
  settled : ∀ id, Standing.after id (server.queue id) (server.standing id) =
    .ok (server.members.seenBy id)

/-- What waits for a member, each notice with what the member will see once it has arrived. -/
def forecast (server : Server) (id : MemberId) : List (Notice × Standing) :=
  Standing.forecast id (server.standing id) (server.queue id)

def deliveries (id : MemberId) (record : List Occurrence) : List (Notice × Standing) :=
  record.filterMap (·.delivery? id)

def settlements (record : List Occurrence) : List (MemberSet × Packet) :=
  record.filterMap (·.settlement?)

theorem deliveries_append (id : MemberId) (first second : List Occurrence) :
    deliveries id (first ++ second) = deliveries id first ++ deliveries id second :=
  List.filterMap_append

theorem settlements_append (first second : List Occurrence) :
    settlements (first ++ second) = settlements first ++ settlements second :=
  List.filterMap_append

variable {server next : Server} {occurrence : Option Occurrence}

theorem consistent_empty : Consistent {} :=
  ⟨fun _ => ⟨rfl, rfl⟩, fun _ => rfl⟩

theorem Change.settled (hchange : Change server next occurrence)
    (hsettled : ∀ id, Standing.after id (server.queue id) (server.standing id) =
      .ok (server.members.seenBy id)) (id : MemberId) :
    Standing.after id (next.queue id) (next.standing id) = .ok (next.members.seenBy id) := by
  have hid := hsettled id
  cases hchange with
  | quiet hmembers hqueue hstanding => rwa [hmembers, hqueue, hstanding]
  | submitted packet hmembers hqueue hstanding => rwa [hmembers, hqueue, hstanding]
  | processed packet hmembers hqueue hstanding =>
      rw [hmembers, hqueue, hstanding, Standing.after_append, hid]
      exact packet.after_share server.members id
  | delivered target notice hmembers hqueue hstanding =>
      rw [hmembers, hstanding]
      rw [hqueue] at hid
      by_cases heq : id = target
      · subst heq
        rw [Function.update_self] at hid ⊢
        exact Standing.after_cons_of_ok hid
      · rwa [Function.update_of_ne heq] at hid ⊢

theorem Consistent.step (hconsistent : server.Consistent) (move : Move) :
    (server.step move).1.Consistent :=
  ⟨hconsistent.wired.step move,
    (step_change hconsistent.wired move).settled hconsistent.settled⟩

theorem Consistent.run (hconsistent : server.Consistent) (moves : List Move) :
    (server.run moves).Consistent := by
  induction moves generalizing server with
  | nil => exact hconsistent
  | cons move rest ih => exact ih (hconsistent.step move)

/-- No channel refuses a notice that the server delivers. -/
theorem Consistent.notify_eq_ok {taken : Server} {id : MemberId} {notice : Notice}
    (hconsistent : server.Consistent) (htake : server.takeNotice id = .ok (notice, taken)) :
    ∃ line, taken.channel? id = some (taken.mailbox id).channel ∧
      taken.notify id (taken.mailbox id).channel notice =
        .ok ((server.step (.deliver id)).1, ((server.step (.deliver id)).1.mailbox id).channel,
          line) := by
  obtain ⟨rest, hqueue, htaken⟩ := queue_of_takeNotice htake
  have htaken? : taken.mailbox? id = some { server.mailbox id with queue := rest } :=
    htaken ▸ mailbox?_of_queue_taken hqueue
  have hchannel : (taken.mailbox id).channel = (server.mailbox id).channel := by
    rw [mailbox_of_mailbox? taken id htaken?]
  have hsettled : Standing.after (server.mailbox id).channel.owner (notice :: rest)
      (server.mailbox id).channel.standing = .ok (server.members.seenBy id) := by
    rw [(hconsistent.wired id).1, ← hqueue, ← standing_eq]
    exact hconsistent.settled id
  obtain ⟨next, line, habsorb⟩ := Channel.absorb_eq_ok hsettled
  have hnotify : taken.notify id (server.mailbox id).channel notice =
      .ok (taken.modifyChannel id fun _ => next, next, line) := by
    rw [notify, habsorb]
    rfl
  have hstep : (server.step (.deliver id)).1 = taken.modifyChannel id fun _ => next := by
    simp only [Server.step, htake, hchannel, hnotify]
  have hnext : ((taken.modifyChannel id fun _ => next).mailbox id).channel = next := by
    rw [modifyChannel, mailbox_modifyMailbox taken id htaken?, Function.update_self]
  refine ⟨line, ?_, ?_⟩
  · rw [hchannel, channel?, htaken?]
    rfl
  · rw [hstep, hnext, hchannel, hnotify]

/-- One move either takes a notice from the front of what waits for a member, or adds to the end
what the member hears of a packet. -/
theorem Change.deliveries_append_forecast (hchange : Change server next occurrence)
    (hsettled : ∀ id, Standing.after id (server.queue id) (server.standing id) =
      .ok (server.members.seenBy id)) (id : MemberId) :
    deliveries id occurrence.toList ++ next.forecast id =
      server.forecast id ++
        (settlements occurrence.toList).flatMap fun entry => entry.2.views entry.1 id := by
  cases hchange with
  | quiet hmembers hqueue hstanding =>
      simp [deliveries, settlements, forecast, hqueue, hstanding]
  | submitted packet hmembers hqueue hstanding =>
      simp [deliveries, settlements, forecast, hqueue, hstanding, Occurrence.delivery?,
        Occurrence.settlement?]
  | processed packet hmembers hqueue hstanding =>
      have happend := Standing.forecast_append (hsettled id) (packet.share server.members id)
      simpa [deliveries, settlements, forecast, hqueue, hstanding, Occurrence.delivery?,
        Occurrence.settlement?, Packet.views] using happend
  | delivered target notice hmembers hqueue hstanding =>
      by_cases heq : id = target
      · subst heq
        simp [deliveries, settlements, forecast, hqueue, hstanding, Occurrence.delivery?,
          Occurrence.settlement?, Standing.forecast]
      · simp [deliveries, settlements, forecast, hqueue, hstanding, Occurrence.delivery?,
          Occurrence.settlement?, heq, Ne.symm heq]

/-- **The history of a member.** What it was given, followed by what waits for it, is its share of
everything that was processed, in that order and under the views it was meant for. -/
theorem deliveries_append_forecast (hconsistent : server.Consistent) (moves : List Move)
    (id : MemberId) :
    deliveries id (server.record moves) ++ (server.run moves).forecast id =
      server.forecast id ++
        (settlements (server.record moves)).flatMap fun entry => entry.2.views entry.1 id := by
  induction moves generalizing server with
  | nil => simp [record, run, deliveries, settlements]
  | cons move rest ih =>
      have hstep := (step_change hconsistent.wired move).deliveries_append_forecast
        hconsistent.settled id
      have hrest := ih (hconsistent.step move)
      calc
        deliveries id (server.record (move :: rest)) ++ (server.run (move :: rest)).forecast id =
            deliveries id (server.step move).2.toList ++
              (deliveries id ((server.step move).1.record rest) ++
                ((server.step move).1.run rest).forecast id) := by
          rw [record, run, deliveries_append, List.append_assoc]
        _ = server.forecast id ++
              ((settlements (server.step move).2.toList).flatMap fun entry =>
                entry.2.views entry.1 id) ++
              (settlements ((server.step move).1.record rest)).flatMap fun entry =>
                entry.2.views entry.1 id := by
          rw [hrest, ← List.append_assoc, hstep]
        _ = server.forecast id ++
              (settlements (server.record (move :: rest))).flatMap fun entry =>
                entry.2.views entry.1 id := by
          rw [record, settlements_append, List.flatMap_append, List.append_assoc]

end Server

end GroupChat
