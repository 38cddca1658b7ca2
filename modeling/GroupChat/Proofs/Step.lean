import GroupChat.Proofs.Run

/-!
# What one move does

Main statement: `step_change`, which says all that a move can do to the membership, the queues and
the standings. Everything that holds of every run is derived from its four cases.
-/

namespace GroupChat

/-- A channel takes a notice as `landing` says, or refuses it and stays as it was. -/
theorem Channel.absorb_cases (channel : Channel) (notice : Notice) :
    (∃ line, channel.absorb notice =
      .ok ({ channel with standing := notice.landing channel.owner channel.standing }, line)) ∨
    (∃ failure, channel.absorb notice = .error failure ∧
      notice.landing channel.owner channel.standing = channel.standing) := by
  cases notice with
  | raw payload sender =>
      left
      unfold absorb
      by_cases hjoined : channel.isJoined = true
      · exact ⟨_, by simp only [hjoined, if_true]; rfl⟩
      · exact ⟨_, by simp only [hjoined, Bool.false_eq_true, if_false]; rfl⟩
  | control change =>
      cases happly : change.apply channel.owner channel.standing with
      | error failure =>
          right
          refine ⟨failure, ?_, ?_⟩
          · simp only [absorb, happly]
            rfl
          · simp only [Notice.landing, happly]
      | ok next =>
          left
          simp only [absorb, happly, Notice.landing]
          exact ⟨_, rfl⟩

/-- The channel once a notice has arrived, whether it took the notice or refused it. -/
def Channel.hear (channel : Channel) (notice : Notice) : Channel :=
  { channel with standing := notice.landing channel.owner channel.standing }

namespace Mailbox

/-- The mailbox once its first notice has arrived. -/
def advance (mailbox : Mailbox) : Mailbox :=
  match mailbox.queue with
  | [] => mailbox
  | notice :: rest => { channel := mailbox.channel.hear notice, queue := rest }

variable {mailbox : Mailbox} {notice : Notice} {rest : List Notice}

theorem advance_of_queue_eq_nil (hqueue : mailbox.queue = []) : mailbox.advance = mailbox := by
  simp only [advance, hqueue]

theorem advance_of_queue_eq_cons (hqueue : mailbox.queue = notice :: rest) :
    mailbox.advance = { channel := mailbox.channel.hear notice, queue := rest } := by
  simp only [advance, hqueue]

theorem queue_advance (mailbox : Mailbox) : mailbox.advance.queue = mailbox.queue.tail := by
  cases hqueue : mailbox.queue with
  | nil => rw [advance_of_queue_eq_nil hqueue, hqueue, List.tail_nil]
  | cons notice rest => rw [advance_of_queue_eq_cons hqueue, List.tail_cons]

theorem channel_advance (mailbox : Mailbox) :
    mailbox.advance.channel =
      { mailbox.channel with standing := mailbox.advance.channel.standing } := by
  cases hqueue : mailbox.queue with
  | nil => rw [advance_of_queue_eq_nil hqueue]
  | cons notice rest =>
      rw [advance_of_queue_eq_cons hqueue]
      rfl

end Mailbox

namespace Server

/-- Every channel belongs to the member it was made for and hands its actions to the server. -/
def Wired (server : Server) : Prop :=
  ∀ id, (server.mailbox id).channel.owner = id ∧
    (server.mailbox id).channel.transport = .uplink

/-- All that a move can do, as seen through the membership, the queues and the standings. -/
inductive Change (server next : Server) : Option Occurrence → Prop
  | quiet (hmembers : next.members = server.members) (hqueue : next.queue = server.queue)
      (hstanding : next.standing = server.standing) : Change server next none
  | submitted (packet : Packet) (hmembers : next.members = server.members)
      (hqueue : next.queue = server.queue) (hstanding : next.standing = server.standing) :
      Change server next (some (.submitted packet))
  | processed (packet : Packet) (hmembers : next.members = packet.membersAfter server.members)
      (hqueue : ∀ id, next.queue id = server.queue id ++ packet.share server.members id)
      (hstanding : next.standing = server.standing) :
      Change server next (some (.processed server.members packet))
  | delivered (id : MemberId) (notice : Notice) (hmembers : next.members = server.members)
      (hqueue : server.queue = Function.update next.queue id (notice :: next.queue id))
      (hstanding : next.standing =
        Function.update server.standing id (notice.landing id (server.standing id))) :
      Change server next (some (.delivered id notice (notice.landing id (server.standing id))))

variable {server : Server} {id : MemberId} {notice : Notice} {rest : List Notice}

theorem mailbox?_of_queue_eq_cons (hqueue : server.queue id = notice :: rest) :
    server.mailbox? id = some (server.mailbox id) := by
  cases hmailbox : server.mailbox? id with
  | none => simp [queue, hmailbox] at hqueue
  | some mailbox => rw [mailbox_of_mailbox? server id hmailbox]

theorem mailbox?_of_queue_taken (hqueue : server.queue id = notice :: rest) :
    (server.modifyMailbox id fun mailbox => { mailbox with queue := rest }).mailbox? id =
      some { server.mailbox id with queue := rest } := by
  rw [mailbox?_modifyMailbox, if_pos rfl, mailbox?_of_queue_eq_cons hqueue]
  rfl

theorem takeNotice_of_queue_eq_nil (hqueue : server.queue id = []) :
    ∃ error, server.takeNotice id = .error error := by
  unfold queue at hqueue
  unfold takeNotice
  cases hmailbox : server.mailbox? id with
  | none => exact ⟨_, rfl⟩
  | some mailbox =>
      have hempty : mailbox.queue = [] := by simpa [hmailbox] using hqueue
      exact ⟨_, by simp only [hempty]; rfl⟩

theorem takeNotice_of_queue_eq_cons (hqueue : server.queue id = notice :: rest) :
    server.takeNotice id =
      .ok (notice, server.modifyMailbox id fun mailbox => { mailbox with queue := rest }) := by
  have hmailbox := mailbox?_of_queue_eq_cons hqueue
  rw [queue_eq] at hqueue
  simp only [takeNotice, hmailbox, hqueue]

theorem queue_of_takeNotice {taken : Server}
    (htake : server.takeNotice id = .ok (notice, taken)) :
    ∃ rest, server.queue id = notice :: rest ∧
      taken = server.modifyMailbox id fun mailbox => { mailbox with queue := rest } := by
  cases hqueue : server.queue id with
  | nil =>
      obtain ⟨error, herror⟩ := takeNotice_of_queue_eq_nil hqueue
      rw [herror] at htake
      cases htake
  | cons head rest =>
      rw [takeNotice_of_queue_eq_cons hqueue] at htake
      cases htake
      exact ⟨rest, rfl, rfl⟩

theorem notify_cases (server : Server) (id : MemberId) (channel : Channel) (notice : Notice) :
    let next := { channel with standing := notice.landing channel.owner channel.standing }
    (∃ line, server.notify id channel notice =
      .ok (server.modifyChannel id fun _ => next, next, line)) ∨
    (∃ failure, server.notify id channel notice = .error failure ∧ next = channel) := by
  intro next
  unfold notify
  rcases channel.absorb_cases notice with ⟨line, hok⟩ | ⟨failure, herror, hsame⟩
  · left
    rw [hok]
    exact ⟨line, rfl⟩
  · right
    rw [herror]
    refine ⟨failure, rfl, ?_⟩
    simp only [next, hsame]

theorem eq_of_notify {next : Server} {channel heard : Channel} {line : Log.Line}
    (hnotify : server.notify id channel notice = .ok (next, heard, line)) :
    next = server.modifyChannel id (fun _ => channel.hear notice) ∧ heard = channel.hear notice := by
  rcases server.notify_cases id channel notice with ⟨text, hok⟩ | ⟨failure, herror, -⟩
  · rw [hok] at hnotify
    cases hnotify
    exact ⟨rfl, rfl⟩
  · rw [herror] at hnotify
    cases hnotify

/-- A notice that a channel takes is heard by that channel alone. -/
theorem eq_modifyChannel_of_notify {next : Server} {channel heard : Channel} {line : Log.Line}
    (hnotify : server.notify id channel notice = .ok (next, heard, line)) :
    next = server.modifyChannel id fun _ => channel.hear notice :=
  (eq_of_notify hnotify).1

theorem step_deliver_of_queue_eq_nil (hqueue : server.queue id = []) :
    server.step (.deliver id) = (server, none) := by
  obtain ⟨error, herror⟩ := takeNotice_of_queue_eq_nil hqueue
  simp only [step, herror]

theorem step_deliver_of_queue_eq_cons (hqueue : server.queue id = notice :: rest) :
    server.step (.deliver id) =
      (server.modifyMailbox id Mailbox.advance,
        some (.delivered id notice ((server.mailbox id).channel.hear notice).standing)) := by
  have htake := takeNotice_of_queue_eq_cons hqueue
  have htaken? := mailbox?_of_queue_taken hqueue
  have hadvance : ∀ mailbox, server.mailbox? id = some mailbox →
      { channel := (server.mailbox id).channel.hear notice, queue := rest } = mailbox.advance := by
    intro mailbox hmailbox
    rw [queue_eq, mailbox_of_mailbox? server id hmailbox] at hqueue
    rw [Mailbox.advance_of_queue_eq_cons hqueue, mailbox_of_mailbox? server id hmailbox]
  generalize htaken : server.modifyMailbox id (fun mailbox => { mailbox with queue := rest }) = taken
    at htake htaken?
  have hchannel : (taken.mailbox id).channel = (server.mailbox id).channel := by
    rw [mailbox_of_mailbox? taken id htaken?]
  rcases taken.notify_cases id (server.mailbox id).channel notice with
    ⟨line, hok⟩ | ⟨failure, herror, hsame⟩
  · simp only [step, htake, hchannel, hok]
    refine Prod.ext ?_ rfl
    rw [← htaken, modifyChannel, modifyMailbox_modifyMailbox]
    exact modifyMailbox_congr server id hadvance
  -- A channel that refuses the notice is not changed by it.
  · simp only [step, htake, hchannel, herror]
    have hheard : (server.mailbox id).channel.hear notice = (server.mailbox id).channel := hsame
    have hstanding : taken.standing id = (server.mailbox id).channel.standing := by
      rw [standing_eq, hchannel]
    rw [hheard] at hadvance ⊢
    rw [hstanding]
    refine Prod.ext ?_ rfl
    rw [← htaken]
    refine modifyMailbox_congr server id fun mailbox hmailbox => ?_
    rw [← hadvance mailbox hmailbox, mailbox_of_mailbox? server id hmailbox]

/-- Delivering takes the first notice of a mailbox and leaves everything else as it is. -/
theorem step_deliver_eq (server : Server) (id : MemberId) :
    (server.step (.deliver id)).1 = server.modifyMailbox id Mailbox.advance := by
  cases hqueue : server.queue id with
  | nil =>
      rw [step_deliver_of_queue_eq_nil hqueue]
      refine (modifyMailbox_self server id).symm.trans
        (modifyMailbox_congr server id fun mailbox hmailbox => ?_)
      rw [queue_eq, mailbox_of_mailbox? server id hmailbox] at hqueue
      exact (Mailbox.advance_of_queue_eq_nil hqueue).symm
  | cons notice rest => rw [step_deliver_of_queue_eq_cons hqueue]

theorem receive_cases (server : Server) (index : Nat) :
    (∃ error, server.receive index = .error (.request error)) ∨
    (∃ packet entries lines, server.incoming[index]? = some packet ∧
      server.receive index =
        .ok ({ server with
          members := packet.membersAfter server.members
          incoming := server.incoming.eraseIdx index }.postAll entries, lines) ∧
      ∀ id, newsFor id entries = packet.share server.members id) := by
  unfold receive
  cases hpacket : server.incoming[index]? with
  | none => exact Or.inl ⟨_, rfl⟩
  | some packet =>
      by_cases hearlier : (server.incoming.take index).any (·.sender == packet.sender) = true
      · simp only [hearlier, if_true]
        exact Or.inl ⟨_, rfl⟩
      · simp only [hearlier, Bool.false_eq_true, if_false]
        obtain ⟨entries, lines, hok, hnews⟩ :=
          settle_eq_ok { server with incoming := server.incoming.eraseIdx index } packet
        exact Or.inr ⟨packet, entries, lines, rfl, hok, hnews⟩

theorem change_deliver (hwired : server.Wired) (id : MemberId) :
    Change server (server.step (.deliver id)).1 (server.step (.deliver id)).2 := by
  cases hqueue : server.queue id with
  | nil =>
      rw [step_deliver_of_queue_eq_nil hqueue]
      exact .quiet rfl rfl rfl
  | cons notice rest =>
      have hmailbox := mailbox_modifyMailbox server id (mailbox?_of_queue_eq_cons hqueue)
        Mailbox.advance
      have hstanding : ((server.mailbox id).channel.hear notice).standing =
          notice.landing id (server.standing id) := by
        rw [standing_eq, Channel.hear, (hwired id).1]
      rw [step_deliver_of_queue_eq_cons hqueue, hstanding]
      rw [queue_eq] at hqueue
      rw [Mailbox.advance_of_queue_eq_cons hqueue] at hmailbox
      refine .delivered id notice rfl ?_ ?_
      · funext other
        rw [queue_eq (server.modifyMailbox id Mailbox.advance), hmailbox, Function.update_self]
        by_cases heq : other = id
        · subst heq
          rw [Function.update_self, queue_eq, hqueue]
        · rw [Function.update_of_ne heq, queue_eq, queue_eq, hmailbox, Function.update_of_ne heq]
      · funext other
        by_cases heq : other = id
        · subst heq
          rw [Function.update_self, standing_eq (server.modifyMailbox other Mailbox.advance),
            hmailbox, Function.update_self, hstanding]
        · rw [Function.update_of_ne heq, standing_eq, hmailbox, Function.update_of_ne heq,
            standing_eq]

theorem change_receive (server : Server) (index : Nat) :
    Change server (server.step (.receive index)).1 (server.step (.receive index)).2 := by
  rcases server.receive_cases index with
    ⟨error, herror⟩ | ⟨packet, entries, lines, hpacket, hok, hnews⟩
  · simp only [step, herror]
    exact .quiet rfl rfl rfl
  · simp only [step, hpacket, hok]
    refine .processed packet (members_postAll _ entries) (fun id => ?_) (funext fun id => ?_)
    · rw [queue_eq, mailbox_postAll, hnews, queue_eq]
      rfl
    · rw [standing_eq, mailbox_postAll, standing_eq]
      rfl

theorem step_change (hwired : server.Wired) (move : Move) :
    Change server (server.step move).1 (server.step move).2 := by
  cases move with
  | openChannel id =>
      exact .quiet (members_openMailbox server id) (queue_openMailbox server id)
        (standing_openMailbox server id)
  | send id action =>
      simp only [step]
      split
      · exact .submitted ⟨id, action⟩ (members_openMailbox server id) (queue_openMailbox server id)
          (standing_openMailbox server id)
      · exact .quiet (members_openMailbox server id) (queue_openMailbox server id)
          (standing_openMailbox server id)
  | subscribe id subscriber =>
      refine .quiet (members_openMailbox server id) ?_ ?_
      · exact (queue_modifyChannel _ id _).trans (queue_openMailbox server id)
      · rw [← standing_openMailbox server id]
        exact standing_modifyChannel _ id fun _ => rfl
  | cancel id key =>
      exact .quiet rfl (queue_modifyChannel server id _) (standing_modifyChannel server id fun _ => rfl)
  | receive index => exact change_receive server index
  | deliver id => exact change_deliver hwired id

/-- What a move makes of the subscriptions of a member's channel. -/
def Move.subscriptions (id : MemberId) (subscriptions : Subscriptions Subscriber) :
    Move → Subscriptions Subscriber
  | .subscribe target subscriber =>
      if id = target then subscriptions.add subscriber else subscriptions
  | .cancel target key => if id = target then subscriptions.cancel key else subscriptions
  | _ => subscriptions

/-- A channel only ever changes in what it sees of the membership and in its subscriptions. -/
theorem channel_step (server : Server) (move : Move) (id : MemberId) :
    ((server.step move).1.mailbox id).channel =
      { (server.mailbox id).channel with
        standing := (server.step move).1.standing id
        subscriptions := move.subscriptions id (server.mailbox id).channel.subscriptions } := by
  rw [standing_eq]
  cases move with
  | openChannel target =>
      simp only [step, mailbox_openMailbox]
      rfl
  | send target action =>
      have hmailbox : (server.step (.send target action)).1.mailbox = server.mailbox := by
        simp only [step]
        split
        · exact mailbox_openMailbox server target
        · exact mailbox_openMailbox server target
      rw [hmailbox]
      rfl
  | subscribe target subscriber =>
      have hopen : (server.openMailbox target).mailbox? target ≠ none := by
        simp [mailbox?_openMailbox]
      simp only [step, Move.subscriptions]
      rw [channel_modifyChannel _ target id fun hnone => absurd hnone hopen, mailbox_openMailbox]
      split
      · rfl
      · rfl
  | cancel target key =>
      simp only [step, Move.subscriptions]
      rw [channel_modifyChannel server target id]
      · split
        · rfl
        · rfl
      · intro _
        rfl
  | receive index =>
      rcases server.receive_cases index with
        ⟨error, herror⟩ | ⟨packet, entries, lines, hpacket, hok, hnews⟩
      · simp only [step, herror]
        rfl
      · simp only [step, hok, mailbox_postAll]
        rfl
  | deliver target =>
      rw [step_deliver_eq]
      cases hmailbox : server.mailbox? target with
      | none =>
          rw [modifyMailbox_of_eq_none server target hmailbox]
          rfl
      | some mailbox =>
          rw [mailbox_modifyMailbox server target hmailbox]
          by_cases heq : id = target
          · subst heq
            rw [Function.update_self, Mailbox.channel_advance, mailbox_of_mailbox? server id hmailbox]
            rfl
          · rw [Function.update_of_ne heq]
            rfl

/-- Whoever is subscribed after a move was so before, or is it by the move. -/
theorem mem_active_step {server : Server} {move : Move} {id : MemberId} {entry : Nat × Subscriber}
    (hentry : entry ∈ ((server.step move).1.mailbox id).channel.subscriptions.active) :
    entry ∈ (server.mailbox id).channel.subscriptions.active ∨ move = .subscribe id entry.2 := by
  rw [channel_step] at hentry
  cases move with
  | subscribe target subscriber =>
      simp only [Move.subscriptions] at hentry
      split at hentry
      · rename_i htarget
        rcases List.mem_append.1 hentry with hearlier | hnew
        · exact Or.inl hearlier
        · rw [List.mem_singleton.1 hnew, htarget]
          exact Or.inr rfl
      · exact Or.inl hentry
  | cancel target key =>
      simp only [Move.subscriptions] at hentry
      split at hentry
      · exact Or.inl (List.mem_filter.1 hentry).1
      · exact Or.inl hentry
  | _ => exact Or.inl hentry

theorem Wired.step (hwired : server.Wired) (move : Move) : (server.step move).1.Wired := by
  intro id
  rw [channel_step]
  exact hwired id

end Server

end GroupChat
