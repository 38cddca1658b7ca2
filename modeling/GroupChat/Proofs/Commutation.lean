import GroupChat.Proofs.Packets

/-!
# Processing and delivering

Delivering a notice concerns a single mailbox, and processing a packet only ever appends to queues.
So the one can be done before or after the other, and what becomes of a server that processes some
packets and in the end has delivered everything does not depend on when it delivered what. Neither
does what the subscribers of a channel get to see.
-/

namespace GroupChat

/-- A notice as a subscriber gets to see it, and which subscription of which channel that is. -/
structure Showing where
  owner : MemberId
  key : Nat
  name : MemberId
  notice : Notice
  standing : Standing

/-- What is shown by one channel. -/
def shownBy (id : MemberId) (showings : List Showing) : List Showing :=
  showings.filter (·.owner = id)

theorem shownBy_append (id : MemberId) (first second : List Showing) :
    shownBy id (first ++ second) = shownBy id first ++ shownBy id second :=
  List.filter_append ..

namespace Channel

/-- What is shown when a notice arrives. Nobody sees a notice that the channel refuses. -/
def shows (channel : Channel) (notice : Notice) : List Showing :=
  match channel.absorb notice with
  | .error _ => []
  | .ok (heard, _) =>
      if heard.publishes notice then
        heard.subscriptions.active.map fun (key, subscriber) =>
          { owner := heard.owner, key, name := subscriber.name, notice, standing := heard.standing }
      else []

/-- What is shown until all of some notices have arrived. -/
def outlook (channel : Channel) : List Notice → List Showing
  | [] => []
  | notice :: rest => channel.shows notice ++ (channel.hear notice).outlook rest

theorem shownBy_shows (channel : Channel) (notice : Notice) (id : MemberId) :
    shownBy id (channel.shows notice) = if channel.owner = id then channel.shows notice else [] := by
  have howner : ∀ showing ∈ channel.shows notice, showing.owner = channel.owner := by
    intro showing hmem
    unfold shows at hmem
    rcases channel.absorb_cases notice with ⟨line, hok⟩ | ⟨failure, herror, -⟩
    · simp only [hok] at hmem
      split at hmem
      · obtain ⟨entry, -, rfl⟩ := List.mem_map.1 hmem
        rfl
      · cases hmem
    · simp only [herror] at hmem
      cases hmem
  split
  · rename_i heq
    exact List.filter_eq_self.2 fun showing hmem => by simp [howner showing hmem, heq]
  · rename_i hne
    exact List.filter_eq_nil_iff.2 fun showing hmem => by simp [howner showing hmem, hne]

theorem outlook_append (channel : Channel) (first second : List Notice) :
    channel.outlook (first ++ second) =
      channel.outlook first ++ (first.foldl hear channel).outlook second := by
  induction first generalizing channel with
  | nil => rfl
  | cons notice rest ih =>
      simp only [List.cons_append, outlook, List.foldl_cons, ih, List.append_assoc]

end Channel

namespace Mailbox

/-- The mailbox once all its notices have arrived. -/
def drain (mailbox : Mailbox) : Mailbox :=
  { channel := mailbox.queue.foldl Channel.hear mailbox.channel, queue := [] }

/-- What is shown when the first notice arrives. -/
def shows (mailbox : Mailbox) : List Showing :=
  match mailbox.queue with
  | [] => []
  | notice :: _ => mailbox.channel.shows notice

/-- What is shown until all notices have arrived. -/
def outlook (mailbox : Mailbox) : List Showing := mailbox.channel.outlook mailbox.queue

variable {mailbox : Mailbox}

theorem advance_push (hqueue : mailbox.queue ≠ []) (news : List Notice) :
    (mailbox.push news).advance = mailbox.advance.push news := by
  obtain ⟨notice, rest, hcons⟩ := List.exists_cons_of_ne_nil hqueue
  have hpush : (mailbox.push news).queue = notice :: (rest ++ news) := by
    rw [push, hcons, List.cons_append]
  rw [advance_of_queue_eq_cons hcons, advance_of_queue_eq_cons hpush]
  rfl

theorem drain_of_queue_eq_nil (hqueue : mailbox.queue = []) : mailbox.drain = mailbox := by
  obtain ⟨channel, queue⟩ := mailbox
  dsimp only at hqueue
  subst hqueue
  rfl

theorem drain_advance (mailbox : Mailbox) : mailbox.advance.drain = mailbox.drain := by
  cases hqueue : mailbox.queue with
  | nil => rw [advance_of_queue_eq_nil hqueue]
  | cons notice rest =>
      rw [advance_of_queue_eq_cons hqueue]
      simp only [drain, hqueue, List.foldl_cons]

theorem drain_push (mailbox : Mailbox) (news : List Notice) :
    (mailbox.push news).drain = (mailbox.drain.push news).drain := by
  simp only [drain, push, List.foldl_append, List.nil_append]

theorem shownBy_shows (mailbox : Mailbox) (id : MemberId) :
    shownBy id mailbox.shows = if mailbox.channel.owner = id then mailbox.shows else [] := by
  unfold shows
  split
  · exact (ite_self []).symm
  · exact mailbox.channel.shownBy_shows _ id

theorem shows_append_outlook (mailbox : Mailbox) :
    mailbox.shows ++ mailbox.advance.outlook = mailbox.outlook := by
  cases hqueue : mailbox.queue with
  | nil =>
      rw [advance_of_queue_eq_nil hqueue]
      simp only [shows, hqueue, List.nil_append]
  | cons notice rest =>
      rw [advance_of_queue_eq_cons hqueue]
      simp only [shows, outlook, hqueue, Channel.outlook]

theorem outlook_push (mailbox : Mailbox) (news : List Notice) :
    (mailbox.push news).outlook = mailbox.outlook ++ mailbox.drain.channel.outlook news :=
  mailbox.channel.outlook_append mailbox.queue news

theorem outlook_of_queue_eq_nil (hqueue : mailbox.queue = []) : mailbox.outlook = [] := by
  simp only [outlook, hqueue, Channel.outlook]

end Mailbox

namespace Server

variable {server next : Server} {index : Nat} {packet : Packet} {id : MemberId}

theorem members_step_deliver (server : Server) (id : MemberId) :
    (server.step (.deliver id)).1.members = server.members := by
  rw [step_deliver_eq]
  rfl

theorem mailbox?_step_deliver (server : Server) (id other : MemberId) :
    (server.step (.deliver id)).1.mailbox? other =
      if other = id then (server.mailbox? id).map Mailbox.advance else server.mailbox? other := by
  rw [step_deliver_eq, mailbox?_modifyMailbox]

theorem mailbox_step_deliver (server : Server) (id other : MemberId) :
    (server.step (.deliver id)).1.mailbox other =
      if other = id then (server.mailbox id).advance else server.mailbox other := by
  rw [mailbox, mailbox?_step_deliver]
  split
  · rename_i heq
    rw [heq]
    exact Option.getD_map Mailbox.advance (.fresh id) (server.mailbox? id)
  · rfl

theorem members_step_receive (hdue : server.Due index packet) :
    (server.step (.receive index)).1.members = packet.membersAfter server.members := by
  obtain ⟨next, -, -, -, hmembers, hstep⟩ := receive_eq_ok_of_due hdue
  rw [hstep, hmembers]

theorem incoming_step_receive (hdue : server.Due index packet) :
    (server.step (.receive index)).1.incoming = server.incoming.eraseIdx index := by
  obtain ⟨next, -, -, hincoming, -, hstep⟩ := receive_eq_ok_of_due hdue
  rw [hstep, hincoming]

/-- Processing a packet appends to every queue what its owner hears of the packet. -/
theorem mailbox?_step_receive (hdue : server.Due index packet) (id : MemberId) :
    (server.step (.receive index)).1.mailbox? id =
      if packet.share server.members id = [] then server.mailbox? id
      else some ((server.mailbox id).push (packet.share server.members id)) := by
  obtain ⟨entries, lines, hok, hnews⟩ :=
    settle_eq_ok { server with incoming := server.incoming.eraseIdx index } packet
  rw [← receive_of_due hdue] at hok
  simp only [step, hok, mailbox?_postAll, hnews]
  rfl

theorem mailbox_step_receive (hdue : server.Due index packet) (id : MemberId) :
    (server.step (.receive index)).1.mailbox id =
      (server.mailbox id).push (packet.share server.members id) := by
  rw [mailbox, mailbox?_step_receive hdue]
  split
  · rename_i hshare
    rw [hshare]
    simp [Mailbox.push, mailbox]
  · rfl

theorem Due.congr (hdue : server.Due index packet) (hincoming : next.incoming = server.incoming) :
    next.Due index packet :=
  ⟨hincoming ▸ hdue.pending, hincoming ▸ hdue.first⟩

theorem Blocked.congr (hblocked : server.Blocked index)
    (hincoming : next.incoming = server.incoming) : next.Blocked index := by
  unfold Blocked
  rw [hincoming]
  exact hblocked

theorem step_deliver_comm (server : Server) (first second : MemberId) :
    ((server.step (.deliver first)).1.step (.deliver second)).1 =
      ((server.step (.deliver second)).1.step (.deliver first)).1 := by
  by_cases hsame : first = second
  · rw [hsame]
  · refine eq_of_mailbox? ?_ ?_ fun id => ?_
    · simp only [members_step_deliver]
    · simp only [incoming_step_deliver]
    · simp only [mailbox?_step_deliver, if_neg hsame, if_neg (Ne.symm hsame)]
      split
      · rename_i hid
        rw [hid, if_neg (Ne.symm hsame)]
      · rfl

/-- Taking from the front of a queue and appending to its end do not interfere. -/
theorem step_receive_deliver_comm (index : Nat) (hqueue : server.queue id ≠ []) :
    ((server.step (.receive index)).1.step (.deliver id)).1 =
      ((server.step (.deliver id)).1.step (.receive index)).1 := by
  have hincoming := incoming_step_deliver server id
  rcases server.due_or_blocked index with ⟨packet, hdue⟩ | hblocked
  · have hlater := hdue.congr hincoming
    refine eq_of_mailbox? ?_ ?_ fun other => ?_
    · rw [members_step_deliver, members_step_receive hdue, members_step_receive hlater,
        members_step_deliver]
    · rw [incoming_step_deliver, incoming_step_receive hdue, incoming_step_receive hlater, hincoming]
    · rw [mailbox?_step_deliver, mailbox?_step_receive hlater, members_step_deliver,
        mailbox?_step_deliver, mailbox_step_deliver, mailbox?_step_receive hdue,
        mailbox?_step_receive hdue]
      by_cases heq : other = id
      · subst heq
        rw [if_pos rfl, if_pos rfl, if_pos rfl]
        split
        · rfl
        · rw [queue_eq] at hqueue
          rw [Option.map_some, Mailbox.advance_push hqueue]
      · rw [if_neg heq, if_neg heq, if_neg heq]
  · rw [step_receive_of_blocked hblocked, step_receive_of_blocked (hblocked.congr hincoming)]

/-- A packet is processed or a notice delivered. -/
def Move.IsTurn : Move → Prop
  | .receive _ | .deliver _ => True
  | _ => False

def Move.index? : Move → Option Nat
  | .receive index => some index
  | _ => none

/-- What subscribers see of a move. -/
def shows (server : Server) : Move → List Showing
  | .deliver id => (server.mailbox id).shows
  | _ => []

/-- What subscribers see of a run. -/
def showings (server : Server) : List Move → List Showing
  | [] => []
  | move :: rest => server.shows move ++ (server.step move).1.showings rest

theorem showings_append (server : Server) (first second : List Move) :
    server.showings (first ++ second) =
      server.showings first ++ (server.run first).showings second := by
  induction first generalizing server with
  | nil => rfl
  | cons move rest ih => rw [List.cons_append, showings, showings, run, ih, List.append_assoc]

/-- Every channel belongs to the member it was made for. -/
def Owned (server : Server) : Prop := ∀ id, (server.mailbox id).channel.owner = id

theorem Owned.step (howned : server.Owned) (move : Move) : (server.step move).1.Owned := by
  intro id
  rw [channel_step]
  exact howned id

theorem Owned.shownBy_shows (howned : server.Owned) (id other : MemberId) :
    shownBy other (server.shows (.deliver id)) =
      if other = id then (server.mailbox id).shows else [] := by
  have hmailbox := (server.mailbox id).shownBy_shows other
  rw [howned id] at hmailbox
  rw [shows, hmailbox]
  exact if_congr eq_comm rfl rfl

/-- Two servers that differ in nothing but what they have delivered so far, and what their subscribers
have seen of it. -/
structure Alike (seen seen' : List Showing) (server server' : Server) : Prop where
  members : server.members = server'.members
  incoming : server.incoming = server'.incoming
  drained : ∀ id, (server.mailbox? id).map Mailbox.drain = (server'.mailbox? id).map Mailbox.drain
  outlook : ∀ id, shownBy id seen ++ (server.mailbox id).outlook =
    shownBy id seen' ++ (server'.mailbox id).outlook

namespace Alike

variable {seen seen' seen'' : List Showing} {server' server'' : Server}

theorem refl (seen : List Showing) (server : Server) : Alike seen seen server server :=
  ⟨rfl, rfl, fun _ => rfl, fun _ => rfl⟩

theorem symm (halike : Alike seen seen' server server') : Alike seen' seen server' server :=
  ⟨halike.members.symm, halike.incoming.symm, fun id => (halike.drained id).symm,
    fun id => (halike.outlook id).symm⟩

theorem trans (hfirst : Alike seen seen' server server')
    (hsecond : Alike seen' seen'' server' server'') : Alike seen seen'' server server'' :=
  ⟨hfirst.members.trans hsecond.members, hfirst.incoming.trans hsecond.incoming,
    fun id => (hfirst.drained id).trans (hsecond.drained id),
    fun id => (hfirst.outlook id).trans (hsecond.outlook id)⟩

theorem drain_mailbox (halike : Alike seen seen' server server') (id : MemberId) :
    (server.mailbox id).drain = (server'.mailbox id).drain := by
  have hdrain : ∀ server : Server, (server.mailbox id).drain =
      ((server.mailbox? id).map Mailbox.drain).getD (.fresh id) := fun server =>
    (Option.getD_map Mailbox.drain (.fresh id) (server.mailbox? id)).symm
  rw [hdrain, hdrain, halike.drained]

/-- Delivering something on one side only makes no difference. -/
theorem deliver (halike : Alike seen seen' server server') (howned : server.Owned)
    (id : MemberId) :
    Alike (seen ++ server.shows (.deliver id)) seen' (server.step (.deliver id)).1 server' := by
  refine ⟨?_, ?_, fun other => ?_, fun other => ?_⟩
  · rw [members_step_deliver, halike.members]
  · rw [incoming_step_deliver, halike.incoming]
  · rw [← halike.drained, mailbox?_step_deliver]
    split
    · rename_i heq
      rw [Option.map_map, heq]
      exact congrArg (Option.map · (server.mailbox? id)) (funext Mailbox.drain_advance)
    · rfl
  · rw [← halike.outlook, shownBy_append, howned.shownBy_shows, mailbox_step_deliver]
    split
    · rename_i heq
      rw [List.append_assoc, Mailbox.shows_append_outlook, heq]
    · rw [List.append_nil]

/-- The same packet can be processed on both sides, and everybody hears the same of it. -/
theorem receive (halike : Alike seen seen' server server') (index : Nat) :
    Alike seen seen' (server.step (.receive index)).1 (server'.step (.receive index)).1 := by
  have hincoming := halike.incoming.symm
  rcases server.due_or_blocked index with ⟨packet, hdue⟩ | hblocked
  · have hdue' := hdue.congr hincoming
    refine ⟨?_, ?_, fun id => ?_, fun id => ?_⟩
    · rw [members_step_receive hdue, members_step_receive hdue', halike.members]
    · rw [incoming_step_receive hdue, incoming_step_receive hdue', hincoming]
    · rw [mailbox?_step_receive hdue, mailbox?_step_receive hdue', ← halike.members]
      split
      · exact halike.drained id
      · rw [Option.map_some, Option.map_some, Mailbox.drain_push, halike.drain_mailbox,
          ← Mailbox.drain_push]
    · rw [mailbox_step_receive hdue, mailbox_step_receive hdue', Mailbox.outlook_push,
        Mailbox.outlook_push, ← List.append_assoc, halike.outlook, List.append_assoc,
        halike.drain_mailbox, halike.members]
  · rw [step_receive_of_blocked hblocked, step_receive_of_blocked (hblocked.congr hincoming)]
    exact halike

/-- Leaving out all deliveries of a run makes no difference. -/
theorem run (halike : Alike seen seen' server server') (howned : server.Owned) {moves : List Move}
    (hmoves : ∀ move ∈ moves, move.IsTurn) :
    Alike (seen ++ server.showings moves) seen' (server.run moves)
      (server'.run ((moves.filterMap Move.index?).map .receive)) := by
  induction moves generalizing seen server server' with
  | nil => rwa [showings, List.append_nil]
  | cons move rest ih =>
      have hrest : ∀ other ∈ rest, other.IsTurn := fun other hother =>
        hmoves other (List.mem_cons_of_mem _ hother)
      rw [showings, ← List.append_assoc]
      cases move with
      | receive index =>
          rw [show server.shows (.receive index) = [] from rfl, List.append_nil]
          exact ih (halike.receive index) (howned.step _) hrest
      | deliver id => exact ih (halike.deliver howned id) (howned.step _) hrest
      | _ => exact (hmoves _ List.mem_cons_self).elim

/-- When nothing waits any more there is no difference left. -/
theorem eq_of_queue_eq_nil (halike : Alike seen seen' server server')
    (hqueue : ∀ id, server.queue id = []) (hqueue' : ∀ id, server'.queue id = []) :
    server = server' ∧ ∀ id, shownBy id seen = shownBy id seen' := by
  have hdrain : ∀ server : Server, (∀ id, server.queue id = []) →
      ∀ id, (server.mailbox? id).map Mailbox.drain = server.mailbox? id := by
    intro server hqueue id
    cases hmailbox : server.mailbox? id with
    | none => rfl
    | some mailbox =>
        have hempty := hqueue id
        rw [queue_eq, mailbox_of_mailbox? server id hmailbox] at hempty
        rw [Option.map_some, Mailbox.drain_of_queue_eq_nil hempty]
  constructor
  · refine eq_of_mailbox? halike.members halike.incoming fun id => ?_
    rw [← hdrain server hqueue, halike.drained, hdrain server' hqueue']
  · intro id
    have houtlook := halike.outlook id
    rwa [Mailbox.outlook_of_queue_eq_nil ((queue_eq server id).symm.trans (hqueue id)),
      Mailbox.outlook_of_queue_eq_nil ((queue_eq server' id).symm.trans (hqueue' id)),
      List.append_nil, List.append_nil] at houtlook

end Alike

/-- Runs that process the same packets in the same order and deliver everything end in the same state,
and every channel has shown the same. -/
theorem run_eq_of_index?_eq (howned : server.Owned) {moves moves' : List Move}
    (hmoves : ∀ move ∈ moves, move.IsTurn) (hmoves' : ∀ move ∈ moves', move.IsTurn)
    (hindices : moves.filterMap Move.index? = moves'.filterMap Move.index?)
    (hqueue : ∀ id, (server.run moves).queue id = [])
    (hqueue' : ∀ id, (server.run moves').queue id = []) :
    server.run moves = server.run moves' ∧
      ∀ id, shownBy id (server.showings moves) = shownBy id (server.showings moves') := by
  have hfirst := (Alike.refl [] server).run howned hmoves
  have hsecond := (Alike.refl [] server).run howned hmoves'
  rw [← hindices] at hsecond
  exact (hfirst.trans hsecond.symm).eq_of_queue_eq_nil hqueue hqueue'

end Server

end GroupChat
