import GroupChat.Proofs.Session

/-!
# Packets

What becomes of the packets that members send. Main statement: whatever happens to a server, the packets
of one sender that were processed so far, followed by those that are pending, are exactly those that it
accepted, in the order in which they were sent. A packet can be processed if and only if no earlier one
of its sender is pending, and asking for any other one has no effect.
-/

namespace GroupChat

def packetsFrom (sender : MemberId) (packets : List Packet) : List Packet :=
  packets.filter (·.sender == sender)

theorem packetsFrom_append (sender : MemberId) (first second : List Packet) :
    packetsFrom sender (first ++ second) = packetsFrom sender first ++ packetsFrom sender second :=
  List.filter_append ..

namespace Server

namespace Occurrence

/-- The packet that was accepted. -/
def submission? : Occurrence → Option Packet
  | .submitted packet => some packet
  | _ => none

end Occurrence

def submissions (record : List Occurrence) : List Packet := record.filterMap (·.submission?)

theorem submissions_append (first second : List Occurrence) :
    submissions (first ++ second) = submissions first ++ submissions second :=
  List.filterMap_append

/-- Everything that can become of a server, and what has happened to it meanwhile. Other than in a run,
somebody else may tell a channel something, or exchange its transport. -/
inductive Evolves (start : Server) : List Occurrence → Server → Prop
  | refl : Evolves start [] start
  | move {record : List Occurrence} {server : Server} (hbefore : Evolves start record server)
      (move : Move) : Evolves start (record ++ (server.step move).2.toList) (server.step move).1
  | notify {record : List Occurrence} {server next : Server} {id : MemberId}
      {channel heard : Channel} {notice : Notice} {line : Log.Line}
      (hbefore : Evolves start record server) (hchannel : server.channel? id = some channel)
      (hnotify : server.notify id channel notice = .ok (next, heard, line)) :
      Evolves start record next
  | install {record : List Occurrence} {server : Server} (hbefore : Evolves start record server)
      (id : MemberId) (transport : Transport) :
      Evolves start record (server.modifyChannel id fun channel => { channel with transport })

/-- A packet that may be processed: no earlier one of its sender is pending. -/
structure Due (server : Server) (index : Nat) (packet : Packet) : Prop where
  pending : server.incoming[index]? = some packet
  first : ∀ earlier ∈ server.incoming.take index, earlier.sender ≠ packet.sender

/-- Nothing may be processed at a position: it is past the end, or an earlier packet of the same sender
is pending. -/
def Blocked (server : Server) (index : Nat) : Prop :=
  server.incoming.length ≤ index ∨
    ∃ packet, server.incoming[index]? = some packet ∧
      ∃ earlier ∈ server.incoming.take index, earlier.sender = packet.sender

variable {server next : Server} {index : Nat} {packet : Packet}

theorem Evolves.run {start : Server} {record : List Occurrence} (hevolves : Evolves start record server)
    (moves : List Move) : Evolves start (record ++ server.record moves) (server.run moves) := by
  induction moves generalizing record server with
  | nil => simpa [Server.record, Server.run] using hevolves
  | cons move rest ih =>
      have hrest := ih (hevolves.move move)
      rwa [List.append_assoc] at hrest

theorem evolves_run (moves : List Move) : Evolves {} (record {} moves) (run {} moves) := by
  have hstart : Evolves {} [] {} := .refl
  exact hstart.run moves

theorem due_or_blocked (server : Server) (index : Nat) :
    (∃ packet, server.Due index packet) ∨ server.Blocked index := by
  cases hpacket : server.incoming[index]? with
  | none => exact Or.inr (Or.inl (List.getElem?_eq_none_iff.1 hpacket))
  | some packet =>
      by_cases hearlier : ∃ earlier ∈ server.incoming.take index, earlier.sender = packet.sender
      · exact Or.inr (Or.inr ⟨packet, hpacket, hearlier⟩)
      · refine Or.inl ⟨packet, hpacket, fun earlier hmem heq => ?_⟩
        exact hearlier ⟨earlier, hmem, heq⟩

theorem receive_of_due (hdue : server.Due index packet) :
    server.receive index =
      { server with incoming := server.incoming.eraseIdx index }.settle packet := by
  have hfirst : ¬(server.incoming.take index).any (·.sender == packet.sender) = true := by
    intro hany
    obtain ⟨earlier, hmem, heq⟩ := List.any_eq_true.1 hany
    exact hdue.first earlier hmem (beq_iff_eq.1 heq)
  simp only [receive, hdue.pending, if_neg hfirst]

theorem receive_of_blocked (hblocked : server.Blocked index) :
    ∃ error, server.receive index = .error (.request error) := by
  rcases hblocked with hlength | ⟨packet, hpacket, earlier, hmem, heq⟩
  · refine ⟨.nothingToReceive, ?_⟩
    simp only [receive, List.getElem?_eq_none_iff.2 hlength]
  · refine ⟨.outOfOrder packet.sender, ?_⟩
    have hany : (server.incoming.take index).any (·.sender == packet.sender) = true :=
      List.any_eq_true.2 ⟨earlier, hmem, beq_iff_eq.2 heq⟩
    simp only [receive, hpacket, hany, if_true]

/-- Processing a packet takes it, and nothing else, out of those that are pending. -/
theorem receive_eq_ok_of_due (hdue : server.Due index packet) :
    ∃ next lines, server.receive index = .ok (next, lines) ∧
      next.incoming = server.incoming.eraseIdx index ∧
      next.members = packet.membersAfter server.members ∧
      server.step (.receive index) = (next, some (.processed server.members packet)) := by
  obtain ⟨entries, lines, hok, -⟩ :=
    settle_eq_ok { server with incoming := server.incoming.eraseIdx index } packet
  rw [← receive_of_due hdue] at hok
  refine ⟨_, lines, hok, incoming_postAll _ entries, members_postAll _ entries, ?_⟩
  simp only [step, hok, hdue.pending]
  rfl

theorem step_receive_of_blocked (hblocked : server.Blocked index) :
    server.step (.receive index) = (server, none) := by
  obtain ⟨error, herror⟩ := receive_of_blocked hblocked
  simp only [step, herror]

/-- A packet that is due is the first one of its sender, so that taking it keeps the order. -/
theorem packetsFrom_incoming_of_due (hdue : server.Due index packet) (sender : MemberId) :
    packetsFrom sender server.incoming =
      packetsFrom sender [packet] ++ packetsFrom sender (server.incoming.eraseIdx index) := by
  obtain ⟨hindex, hpacket⟩ := List.getElem?_eq_some_iff.1 hdue.pending
  have hsplit : packetsFrom sender server.incoming =
      packetsFrom sender (server.incoming.take index) ++ packetsFrom sender [packet] ++
        packetsFrom sender (server.incoming.drop (index + 1)) := by
    rw [← packetsFrom_append, ← packetsFrom_append, List.append_assoc, List.singleton_append,
      ← hpacket, ← List.drop_eq_getElem_cons hindex, List.take_append_drop]
  rw [hsplit, List.eraseIdx_eq_take_drop_succ, packetsFrom_append]
  by_cases hsender : packet.sender = sender
  · have hnone : packetsFrom sender (server.incoming.take index) = [] := by
      apply List.filter_eq_nil_iff.2
      intro earlier hmem
      simpa [← hsender] using hdue.first earlier hmem
    rw [hnone, List.nil_append, List.nil_append]
  · have hnone : packetsFrom sender [packet] = [] := by simp [packetsFrom, hsender]
    rw [hnone, List.append_nil, List.nil_append]

theorem incoming_step_deliver (server : Server) (id : MemberId) :
    (server.step (.deliver id)).1.incoming = server.incoming := by
  rw [step_deliver_eq]
  rfl

/-- All that a move can do to the packets and to the membership. -/
inductive Handles (server : Server) (move : Move) (next : Server) : Option Occurrence → Prop
  | accepted (packet : Packet) (hmove : move = .send packet.sender packet.action)
      (huplinks : (server.mailbox packet.sender).channel.uplinks packet.action = true)
      (hincoming : next.incoming = server.incoming ++ [packet])
      (hmembers : next.members = server.members) :
      Handles server move next (some (.submitted packet))
  | processed (index : Nat) (packet : Packet) (hmove : move = .receive index)
      (hdue : server.Due index packet) (hincoming : next.incoming = server.incoming.eraseIdx index)
      (hmembers : next.members = packet.membersAfter server.members) :
      Handles server move next (some (.processed server.members packet))
  | delivered (id : MemberId) (notice : Notice) (standing : Standing)
      (hincoming : next.incoming = server.incoming) (hmembers : next.members = server.members) :
      Handles server move next (some (.delivered id notice standing))
  | quiet (hincoming : next.incoming = server.incoming) (hmembers : next.members = server.members) :
      Handles server move next none

theorem step_handles (server : Server) (move : Move) :
    server.Handles move (server.step move).1 (server.step move).2 := by
  cases move with
  | openChannel id => exact .quiet (incoming_openMailbox server id) (members_openMailbox server id)
  | send id action =>
      simp only [step]
      split
      · rename_i huplinks
        refine .accepted ⟨id, action⟩ rfl huplinks ?_ (members_openMailbox server id)
        rw [submit, incoming_openMailbox]
      · exact .quiet (incoming_openMailbox server id) (members_openMailbox server id)
  | subscribe id subscriber =>
      exact .quiet (incoming_openMailbox server id) (members_openMailbox server id)
  | cancel id key => exact .quiet rfl rfl
  | receive index =>
      rcases server.due_or_blocked index with ⟨packet, hdue⟩ | hblocked
      · obtain ⟨next, -, -, hincoming, hmembers, hstep⟩ := receive_eq_ok_of_due hdue
        rw [hstep]
        exact .processed index packet rfl hdue hincoming hmembers
      · rw [step_receive_of_blocked hblocked]
        exact .quiet rfl rfl
  | deliver id =>
      cases hqueue : server.queue id with
      | nil =>
          rw [step_deliver_of_queue_eq_nil hqueue]
          exact .quiet rfl rfl
      | cons notice rest =>
          rw [step_deliver_of_queue_eq_cons hqueue]
          exact .delivered id notice _ rfl rfl

/-- A move takes a packet of a sender from the front, or adds one at the end, or neither. -/
theorem Handles.packetsFrom_incoming {move : Move} {occurrence : Option Occurrence}
    (hhandles : server.Handles move next occurrence) (sender : MemberId) :
    packetsFrom sender ((settlements occurrence.toList).map Prod.snd) ++
        packetsFrom sender next.incoming =
      packetsFrom sender server.incoming ++ packetsFrom sender (submissions occurrence.toList) := by
  cases hhandles with
  | accepted packet hmove huplinks hincoming hmembers =>
      rw [hincoming, packetsFrom_append]
      rfl
  | processed index packet hmove hdue hincoming hmembers =>
      rw [hincoming, packetsFrom_incoming_of_due hdue sender]
      exact (List.append_nil _).symm
  | delivered id notice standing hincoming hmembers =>
      rw [hincoming]
      exact (List.append_nil _).symm
  | quiet hincoming hmembers =>
      rw [hincoming]
      exact (List.append_nil _).symm

/-- What was processed of a sender's packets, followed by what is pending, is all that was accepted. -/
theorem Evolves.packetsFrom_incoming {record : List Occurrence} (hevolves : Evolves {} record server)
    (sender : MemberId) :
    packetsFrom sender ((settlements record).map Prod.snd) ++ packetsFrom sender server.incoming =
      packetsFrom sender (submissions record) := by
  induction hevolves with
  | refl => rfl
  | @move record server hbefore move ih =>
      rw [settlements_append, submissions_append, List.map_append, packetsFrom_append,
        packetsFrom_append, List.append_assoc, (step_handles server move).packetsFrom_incoming,
        ← List.append_assoc, ih]
  | notify hbefore hchannel hnotify ih =>
      rw [eq_modifyChannel_of_notify hnotify]
      exact ih
  | install hbefore id transport ih => exact ih

end Server

namespace Session

theorem Reached.evolves {session : Session} (hreached : Reached session) :
    ∃ record, Server.Evolves {} record session.server := by
  obtain ⟨logger, moves, -, hserver⟩ := hreached.leads
  rw [hserver]
  exact ⟨_, Server.evolves_run moves⟩

/-- While a channel has the server's transport, sending answers whether the server has got a packet. -/
theorem exec_send (limit : Nat) (session : Session) (id : MemberId) (action : Action)
    (htransport : (session.server.mailbox id).channel.transport = .uplink) :
    ∃ accepted next, exec (limit + 1) (.send id (.ok action)) session =
        some (.ok (.flag accepted), next) ∧
      next.server = (session.server.step (.send id action)).1 ∧
      (session.server.step (.send id action)).2 =
        if accepted then some (.submitted ⟨id, action⟩) else none := by
  have hchannel : (session.openChannel id).channel? id = some (session.server.mailbox id).channel :=
    session.server.channel?_openMailbox id
  have hexec : exec (limit + 1) (.send id (.ok action)) session =
      send (exec limit) id action (session.openChannel id) := rfl
  rw [hexec]
  cases hrefusal : (session.server.mailbox id).channel.refusal? action with
  | some line =>
      have huplinks : (session.server.mailbox id).channel.uplinks action = false := by
        simp [Channel.uplinks, htransport, hrefusal]
      refine ⟨false, (session.openChannel id).log [line], ?_, ?_, ?_⟩
      · simp only [send, bind, StateT.bind, get, getThe, MonadStateOf.get, StateT.get, pure,
          Option.bind_some, hchannel, hrefusal]
        rfl
      · simp only [Server.step, huplinks, Bool.false_eq_true, if_false]
        rfl
      · simp only [Server.step, huplinks, Bool.false_eq_true, if_false]
  | none =>
      have huplinks : (session.server.mailbox id).channel.uplinks action = true := by
        simp [Channel.uplinks, htransport, hrefusal]
      refine ⟨true, { session.openChannel id with
        server := (session.openChannel id).server.submit ⟨id, action⟩ }, ?_, ?_, ?_⟩
      · simp only [send, bind, StateT.bind, get, getThe, MonadStateOf.get, StateT.get, pure,
          Option.bind_some, hchannel, hrefusal, htransport]
        rfl
      · simp only [Server.step, huplinks, if_true]
        rfl
      · simp only [Server.step, huplinks, if_true]

/-- Asking for a packet that is not due has no effect at all. -/
theorem exec_receive_of_blocked (limit : Nat) (session : Session) {index : Nat}
    (hblocked : session.server.Blocked index) :
    ∃ error, exec (limit + 1) (.receive index) session = some (.error (.request error), session) := by
  obtain ⟨error, herror⟩ := Server.receive_of_blocked hblocked
  refine ⟨error, ?_⟩
  simp only [exec, step, serve, bind, StateT.bind, get, getThe, MonadStateOf.get, StateT.get, pure,
    Option.bind_some, herror, Except.map]
  rfl

theorem exec_receive_of_due (limit : Nat) (session : Session) {index : Nat} {packet : Packet}
    (hdue : session.server.Due index packet) :
    ∃ next, exec (limit + 1) (.receive index) session = some (.ok .nothing, next) ∧
      session.server.step (.receive index) =
        (next.server, some (.processed session.server.members packet)) := by
  obtain ⟨server, lines, hok, -, -, hstep⟩ := Server.receive_eq_ok_of_due hdue
  refine ⟨{ session with server }.log lines, ?_, hstep⟩
  simp only [exec, step, serve, bind, StateT.bind, get, getThe, MonadStateOf.get, StateT.get, pure,
    Option.bind_some, hok, Except.map]
  rfl

/-- **Conservation of packets.** Whatever becomes of a server, in a session or otherwise, the packets of
one sender that were processed, followed by those that are pending, are those that it accepted, in the
order in which they were sent. It accepts one exactly when sending answers so. Processing one is refused
if and only if the position is past the end or an earlier packet of the same sender is pending, and then
nothing changes. -/
theorem packets_are_conserved :
    (∀ record server, Server.Evolves {} record server → ∀ sender,
      packetsFrom sender ((Server.settlements record).map Prod.snd) ++
          packetsFrom sender server.incoming =
        packetsFrom sender (Server.submissions record)) ∧
    (∀ session, Reached session → ∃ record, Server.Evolves {} record session.server) ∧
    (∀ (limit : Nat) (session : Session) (id : MemberId) (action : Action),
      (session.server.mailbox id).channel.transport = .uplink →
      ∃ accepted next, exec (limit + 1) (.send id (.ok action)) session =
          some (.ok (.flag accepted), next) ∧
        next.server = (session.server.step (.send id action)).1 ∧
        (session.server.step (.send id action)).2 =
          if accepted then some (.submitted ⟨id, action⟩) else none) ∧
    ∀ (limit : Nat) (session : Session) (index : Nat),
      (session.server.Blocked index →
        ∃ error, exec (limit + 1) (.receive index) session =
          some (.error (.request error), session)) ∧
      (¬session.server.Blocked index →
        ∃ packet next, session.server.Due index packet ∧
          exec (limit + 1) (.receive index) session = some (.ok .nothing, next) ∧
          session.server.step (.receive index) =
            (next.server, some (.processed session.server.members packet))) := by
  refine ⟨fun record server hevolves => hevolves.packetsFrom_incoming,
    fun session hreached => hreached.evolves, exec_send, ?_⟩
  intro limit session index
  refine ⟨exec_receive_of_blocked limit session, fun hfree => ?_⟩
  rcases session.server.due_or_blocked index with ⟨packet, hdue⟩ | hblocked
  · obtain ⟨next, hexec, hstep⟩ := exec_receive_of_due limit session hdue
    exact ⟨packet, next, hdue, hexec, hstep⟩
  · exact absurd hblocked hfree

end Session

end GroupChat
