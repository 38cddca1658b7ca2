import GroupChat.Proofs.Moments
import GroupChat.Proofs.Step

/-!
# What a moment leaves alone

Most of what happens in a session has to do with packets, with queues of notices and with the log. It may make
a channel on the way, but those that are there stay as they are. Main statement: a command changes channels
only if it subscribes, cancels, installs a transport or drops a channel.
-/

namespace GroupChat

namespace Server

/-- No channel has been changed or dropped, and those that have been made are fresh. -/
structure Retains (server next : Server) : Prop where
  channel : ∀ id, (next.mailbox id).channel = (server.mailbox id).channel
  isSome : ∀ id, (server.channel? id).isSome = true → (next.channel? id).isSome = true

variable {server middle next : Server} {id : MemberId}

theorem Retains.refl (server : Server) : server.Retains server := ⟨fun _ => rfl, fun _ hsome => hsome⟩

theorem Retains.trans (hfirst : server.Retains middle) (hsecond : middle.Retains next) :
    server.Retains next :=
  ⟨fun id => (hsecond.channel id).trans (hfirst.channel id),
    fun id hsome => hsecond.isSome id (hfirst.isSome id hsome)⟩

theorem Retains.channel? (hretains : server.Retains next) {channel : Channel}
    (hchannel : server.channel? id = some channel) : next.channel? id = some channel := by
  obtain ⟨later, hlater⟩ :=
    Option.isSome_iff_exists.1 (hretains.isSome id (Option.isSome_iff_exists.2 ⟨channel, hchannel⟩))
  rw [hlater, ← channel_mailbox next id hlater, hretains.channel, channel_mailbox server id hchannel]

theorem retains_openMailbox (server : Server) (id : MemberId) : server.Retains (server.openMailbox id) := by
  refine ⟨fun other => by rw [mailbox_openMailbox], fun other hsome => ?_⟩
  rw [Server.channel?, mailbox?_openMailbox]
  by_cases heq : other = id
  · rw [if_pos heq]
    rfl
  · rw [if_neg heq]
    exact hsome

theorem retains_modifyMailbox {change : Mailbox → Mailbox}
    (hchange : ∀ mailbox, (change mailbox).channel = mailbox.channel) :
    server.Retains (server.modifyMailbox id change) := by
  have hchannel : (server.modifyMailbox id change).channel? = server.channel? := by
    funext other
    rw [Server.channel?, mailbox?_modifyMailbox, Server.channel?]
    by_cases heq : other = id
    · rw [if_pos heq, heq, Option.map_map]
      exact congrArg (Option.map · _) (funext hchange)
    · rw [if_neg heq]
  refine ⟨fun other => ?_, fun other hsome => by rw [hchannel]; exact hsome⟩
  cases hmailbox : server.mailbox? id with
  | none => rw [modifyMailbox_of_eq_none server id hmailbox]
  | some mailbox =>
      rw [mailbox_modifyMailbox server id hmailbox]
      by_cases heq : other = id
      · rw [heq, Function.update_self, hchange, mailbox_of_mailbox? server id hmailbox]
      · rw [Function.update_of_ne heq]

theorem retains_postAll (server : Server) (entries : List (MemberId × Notice)) :
    server.Retains (server.postAll entries) := by
  refine ⟨fun id => by rw [mailbox_postAll, Mailbox.push], fun id hsome => ?_⟩
  rw [Server.channel?, mailbox?_postAll]
  split
  · exact hsome
  · rfl

theorem retains_receive {index : Nat} {lines : List Log.Line}
    (hok : server.receive index = .ok (next, lines)) : server.Retains next := by
  rcases server.receive_cases index with ⟨error, herror⟩ | ⟨packet, entries, more, -, hreceive, -⟩
  · rw [herror] at hok
    cases hok
  · rw [hreceive] at hok
    cases hok
    obtain ⟨hchannel, hsome⟩ := retains_postAll { server with
      members := packet.membersAfter server.members
      incoming := server.incoming.eraseIdx index } entries
    exact ⟨hchannel, hsome⟩

/-- What holds for every packet that is received, one after the other, holds for all of them. -/
theorem of_receiveAll {relates : Server → Server → Prop} (hrefl : ∀ server, relates server server)
    (htrans : ∀ {first second third}, relates first second → relates second third → relates first third)
    (hreceive : ∀ {server next index lines}, server.receive index = .ok (next, lines) → relates server next)
    {count : Nat} {lines : List Log.Line} (hok : server.receiveAll = .ok (count, next, lines)) :
    relates server next := by
  unfold receiveAll at hok
  generalize server.incoming.length = limit at hok
  induction limit generalizing server count lines with
  | zero =>
      cases hok
      exact hrefl next
  | succ limit ih =>
      rw [receiveUpTo] at hok
      split at hok
      · cases hok
        exact hrefl next
      · obtain ⟨⟨first, more⟩, hfirst, hrest⟩ := bind_eq_ok_iff.1 hok
        obtain ⟨⟨others, final, rest⟩, hothers, hresult⟩ := bind_eq_ok_iff.1 hrest
        cases hresult
        exact htrans (hreceive hfirst) (ih hothers)

theorem retains_receiveAll {count : Nat} {lines : List Log.Line}
    (hok : server.receiveAll = .ok (count, next, lines)) : server.Retains next :=
  of_receiveAll .refl .trans retains_receive hok

/-- A packet has been received, or all of them. -/
def Receives (server next : Server) : Prop :=
  (∃ index lines, server.receive index = .ok (next, lines)) ∨
    ∃ count lines, server.receiveAll = .ok (count, next, lines)

theorem Receives.retains (hreceives : server.Receives next) : server.Retains next := by
  rcases hreceives with ⟨index, lines, hok⟩ | ⟨count, lines, hok⟩
  · exact retains_receive hok
  · exact retains_receiveAll hok

end Server

namespace Session

/-- No channel has been changed or dropped, and nothing has been done about subscriptions. -/
structure Retains (session next : Session) : Prop where
  server : session.server.Retains next.server
  handles : next.handles = session.handles
  publishing : next.publishing = session.publishing
  held : next.held = session.held

variable {session middle next : Session}

theorem Retains.refl (session : Session) : session.Retains session := ⟨.refl _, rfl, rfl, rfl⟩

theorem Retains.trans (hfirst : session.Retains middle) (hsecond : middle.Retains next) :
    session.Retains next :=
  ⟨hfirst.server.trans hsecond.server, hsecond.handles.trans hfirst.handles,
    hsecond.publishing.trans hfirst.publishing, hsecond.held.trans hfirst.held⟩

theorem Retains.log (session : Session) (lines : List Log.Line) : session.Retains (session.log lines) :=
  ⟨.refl _, rfl, rfl, rfl⟩

theorem Retains.record (session : Session) (event : Event) : session.Retains (session.record event) :=
  ⟨.refl _, rfl, rfl, rfl⟩

theorem Retains.of_server {server : Server} (hserver : session.server.Retains server) :
    session.Retains { session with server } :=
  ⟨hserver, rfl, rfl, rfl⟩

theorem retains_openChannel (session : Session) (id : MemberId) : session.Retains (session.openChannel id) :=
  ⟨Server.retains_openMailbox session.server id, rfl, rfl, rfl⟩

/-- Packets have been received, or nothing has been done. -/
def Receives (session next : Session) : Prop :=
  next = session ∨ ∃ server lines, session.server.Receives server ∧ next = { session with server }.log lines

theorem Receives.retains (hreceives : session.Receives next) : session.Retains next := by
  rcases hreceives with rfl | ⟨server, lines, hserver, rfl⟩
  · exact .refl next
  · exact (Retains.of_server hserver.retains).trans (.log _ lines)

theorem receives_serve {α : Type} {step : Server → Except Failure (α × Server × List Log.Line)}
    {result : Except Failure α}
    (hstep : ∀ value server lines, step session.server = .ok (value, server, lines) →
      session.server.Receives server)
    (hserve : serve step session = some (result, next)) : session.Receives next := by
  simp only [serve, bind, StateT.bind, get, getThe, MonadStateOf.get, StateT.get, pure,
    Option.bind_some] at hserve
  cases hok : step session.server with
  | error failure =>
      rw [hok] at hserve
      cases hserve
      exact .inl rfl
  | ok served =>
      obtain ⟨value, server, lines⟩ := served
      rw [hok] at hserve
      cases hserve
      exact .inr ⟨server, lines, hstep _ _ _ hok, rfl⟩

theorem receives_receiveAll {result : Except Failure Nat}
    (hserve : serve Server.receiveAll session = some (result, next)) : session.Receives next :=
  receives_serve (fun count _ lines hok => .inr ⟨count, lines, hok⟩) hserve

end Session

/-- Commands that make channels at most: they neither change nor drop any. -/
def Command.SparesChannels : Command → Prop
  | .subscribe _ _ _ | .cancel _ | .install _ _ | .drop _ => False
  | _ => True

namespace Moment

variable {session : Session} {stack : List Frame} {command : Command}

/-- A verdict leaves nothing but a message. -/
theorem session_takeVerdict (verdict : Except Bytes Bool) (session : Session) (stack : List Frame) :
    (takeVerdict session verdict stack).session = session ∨
      ∃ line, (takeVerdict session verdict stack).session = session.log [line] := by
  unfold takeVerdict
  split
  · cases verdict with
    | ok handled => exact .inl rfl
    | error text => exact .inr ⟨_, rfl⟩
  · cases verdict with
    | ok handled => exact .inl rfl
    | error text => exact .inl rfl
  · exact .inl rfl

/-- An outcome leaves nothing but a report of it. -/
theorem session_takeOutcome (outcome : Outcome) (session : Session) (stack : List Frame) :
    (takeOutcome session outcome stack).session = session ∨
      ∃ verb value, (takeOutcome session outcome stack).session = session.record (.did verb value) := by
  unfold takeOutcome
  split
  · cases outcome with
    | ok value => exact .inr ⟨_, value, rfl⟩
    | error failure => exact .inl rfl
  · cases outcome with
    | ok value => exact .inl rfl
    | error failure => exact .inl rfl
  · exact .inl rfl

/-- A delivery takes the first notice out of its queue, and nothing else. -/
theorem session_deliver (id : MemberId) (session : Session) (stack : List Frame) :
    (deliver session stack id).session = session ∨
      ∃ notice server, session.server.takeNotice id = .ok (notice, server) ∧
        (deliver session stack id).session = { session with server } := by
  unfold deliver
  split
  · exact .inl rfl
  · rename_i notice server htake
    exact .inr ⟨notice, server, htake, rfl⟩

theorem session_drain (received : Option Nat) (delivered : Nat) (session : Session) (stack : List Frame) :
    (drain session stack received delivered).session = session := by
  unfold drain drained
  split
  · cases received with
    | none => rfl
    | some received => dsimp only; split <;> rfl
  · rfl

theorem receives_settle (session : Session) (stack : List Frame) :
    session.Receives (settle session stack).session := by
  unfold settle
  split
  · exact .inl rfl
  · rename_i result next hserve
    have hreceives := Session.receives_receiveAll hserve
    cases result with
    | error failure => exact hreceives
    | ok received => exact hreceives

theorem retains_takeVerdict (verdict : Except Bytes Bool) (session : Session) (stack : List Frame) :
    session.Retains (takeVerdict session verdict stack).session := by
  rcases session_takeVerdict verdict session stack with hsame | ⟨line, hlog⟩
  · rw [hsame]
    exact .refl session
  · rw [hlog]
    exact .log session [line]

theorem retains_takeOutcome (outcome : Outcome) (session : Session) (stack : List Frame) :
    session.Retains (takeOutcome session outcome stack).session := by
  rcases session_takeOutcome outcome session stack with hsame | ⟨verb, value, hrecord⟩
  · rw [hsame]
    exact .refl session
  · rw [hrecord]
    exact .record session _

theorem retains_publish_cons (channel : Channel) (notice : Notice) (handled : Bool)
    (entry : Nat × Subscriber) (waiting : List (Nat × Subscriber)) (session : Session) (stack : List Frame) :
    session.Retains (publish session stack channel notice handled (entry :: waiting)).session := by
  rw [publish]
  split
  · exact ⟨.refl _, rfl, rfl, rfl⟩
  · exact .refl session

theorem retains_send (id : MemberId) (action : Action) (session : Session) (stack : List Frame) :
    session.Retains (send session stack id action).session := by
  unfold send
  split
  · exact .refl session
  · split
    · exact .log session _
    · split
      · exact .refl session
      · exact ⟨⟨fun _ => rfl, fun _ hsome => hsome⟩, rfl, rfl, rfl⟩
      · exact .refl session
      · exact .record session _

theorem retains_deliver (id : MemberId) (session : Session) (stack : List Frame) :
    session.Retains (deliver session stack id).session := by
  rcases session_deliver id session stack with hsame | ⟨notice, server, htake, hserver⟩
  · rw [hsame]
    exact .refl session
  · rw [hserver]
    obtain ⟨rest, -, rfl⟩ := Server.queue_of_takeNotice htake
    exact .of_server (Server.retains_modifyMailbox fun _ => rfl)

theorem retains_drain (received : Option Nat) (delivered : Nat) (session : Session) (stack : List Frame) :
    session.Retains (drain session stack received delivered).session := by
  rw [session_drain]
  exact .refl session

/-- A command that calls nobody leaves everything to its step. -/
theorem session_of_immediate {leaves : Session → Prop} (hstays : leaves session)
    (hstep : ∀ outcome next, Session.step (fun _ => failure) 0 command session = some (outcome, next) →
      leaves next)
    (hask : ask session stack command =
      match Session.step (fun _ => failure) 0 command session with
      | none => ⟨session, .ask command, stack⟩
      | some (outcome, next) => answer next stack outcome) :
    leaves (ask session stack command).session := by
  rw [hask]
  split
  · exact hstays
  · rename_i outcome next hok
    exact hstep outcome next hok

theorem receives_ask_receive (index : Nat) (session : Session) (stack : List Frame) :
    session.Receives (ask session stack (.receive index)).session := by
  refine session_of_immediate (.inl rfl) (fun outcome next hstep => ?_) rfl
  obtain ⟨⟨result, later⟩, hserve, hrest⟩ := Option.bind_eq_some_iff.1 hstep
  cases hrest
  refine Session.receives_serve (fun value server lines hok => ?_) hserve
  obtain ⟨⟨next, more⟩, hreceive, hnext⟩ := map_eq_ok_iff.1 hok
  cases hnext
  exact .inl ⟨index, _, hreceive⟩

theorem receives_ask_receiveAll (session : Session) (stack : List Frame) :
    session.Receives (ask session stack .receiveAll).session := by
  refine session_of_immediate (.inl rfl) (fun outcome next hstep => ?_) rfl
  obtain ⟨⟨result, later⟩, hserve, hrest⟩ := Option.bind_eq_some_iff.1 hstep
  cases hrest
  exact Session.receives_receiveAll hserve

/-- **Commands.** Whatever is asked for leaves all channels alone, but for commands that are about channels. -/
theorem retains_ask (hcommand : command.SparesChannels) (session : Session) (stack : List Frame) :
    session.Retains (ask session stack command).session := by
  cases command with
  | openChannel id => exact Session.retains_openChannel session id
  | send id action =>
      cases action with
      | error error => exact Session.retains_openChannel session id
      | ok action => exact (Session.retains_openChannel session id).trans (retains_send id action _ stack)
  | notify id notice =>
      cases notice with
      | error error => exact Session.retains_openChannel session id
      | ok notice => exact Session.retains_openChannel session id
  | setLevel level => exact ⟨.refl _, rfl, rfl, rfl⟩
  | receive index => exact (receives_ask_receive index session stack).retains
  | receiveAll => exact (receives_ask_receiveAll session stack).retains
  | deliver id =>
      cases id with
      | some id => exact .refl session
      | none =>
          rw [ask]
          split
          · exact .refl session
          · exact .refl session
  | deliverAll => exact .refl session
  | run => exact .refl session
  | target => exact .refl session
  | queued id => exact .refl session
  | _ => exact hcommand.elim

end Moment

end GroupChat
