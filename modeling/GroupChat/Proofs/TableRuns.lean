import GroupChat.Proofs.ChannelRuns
import GroupChat.Proofs.Tables

/-!
# Sessions on two tables

A session goes on as if its server kept channels and queues apart: whatever it does is done by calls on the two
tables. Main statement: `tables_stay_in_step`, after any calls the tables have the same keys, all members
among them, and no lookup fails; the next one to be served is the least member with the longest queue; and a
delivery is refused only where nothing waits, with nothing changed.
-/

namespace GroupChat

/-- Whether a failure is about what was asked for, and not about the state of a channel or raised by somebody
who was called. -/
def Failure.isParameter : Failure → Bool
  | .control _ | .patch _ | .request _ => true
  | .state _ | .raised _ => false

theorem Channel.not_isParameter_of_absorb {channel : Channel} {notice : Notice} {failure : Failure}
    (herror : channel.absorb notice = .error failure) : failure.isParameter = false := by
  cases notice with
  | raw payload sender =>
      rw [absorb] at herror
      split at herror <;> cases herror
  | control change =>
      rcases change.apply_cases channel.owner channel.standing with ⟨-, happly⟩ | ⟨-, error, happly⟩
      · simp only [absorb, happly, bind, Except.bind] at herror
        cases herror
      · simp only [absorb, happly, bind, Except.bind] at herror
        cases herror
        rfl

namespace Depot

/-- Nothing waits for a member, which may not even be known, or nothing waits for anybody. -/
def Idle (depot : Depot) : Option MemberId → Prop
  | none => ∀ id queue, depot.queues.get? id = some queue → queue = []
  | some id => depot.channels.get? id = none ∨ depot.queues.get? id = some []

variable {server : Server} {id : MemberId} {target : Option MemberId}

theorem idle_none_iff {depot : Depot} : depot.Idle none ↔ depot.target? = none := by
  rw [target?, Directory.largest?_eq_none_iff]
  simp only [Idle, List.length_eq_zero_iff]

theorem idle_split_some_iff : server.split.Idle (some id) ↔ server.queue id = [] := by
  rw [Idle, Server.get?_channels_split, Server.get?_queues_split, Server.channel?, Server.queue]
  cases server.mailbox? id with
  | none => exact iff_of_true (.inl rfl) rfl
  | some mailbox => simp

theorem run_deliver_of_idle (hidle : server.split.Idle target) :
    ∃ error, (deliver target).run server.split = (.error (.failed (.request error)), server.split) := by
  cases target with
  | none =>
      rw [deliver, Work.run_get_bind, idle_none_iff.1 hidle]
      exact ⟨_, rfl⟩
  | some id => exact run_deliverTo_of_nil (idle_split_some_iff.1 hidle)

theorem run_deliverTo_of_not_idle {next : Depot} {failure : Failure}
    (hidle : ¬server.split.Idle (some id))
    (hrun : (deliverTo id).run server.split = (.error (.failed failure), next)) :
    failure.isParameter = false := by
  obtain ⟨notice, rest, hqueue⟩ := List.exists_cons_of_ne_nil fun hnil => hidle (idle_split_some_iff.2 hnil)
  obtain ⟨taken, hchannel, hdeliver⟩ := run_deliverTo_of_cons hqueue
  rw [hdeliver] at hrun
  cases habsorb : (server.mailbox id).channel.absorb notice with
  | error cause =>
      rw [run_hear_of_error hchannel habsorb] at hrun
      cases hrun
      exact Channel.not_isParameter_of_absorb habsorb
  | ok heard =>
      rw [run_hear_of_ok hchannel habsorb] at hrun
      cases hrun

theorem run_deliver_of_not_idle {next : Depot} {failure : Failure} (hidle : ¬server.split.Idle target)
    (hrun : (deliver target).run server.split = (.error (.failed failure), next)) :
    failure.isParameter = false := by
  cases target with
  | some id => exact run_deliverTo_of_not_idle hidle hrun
  | none =>
      obtain ⟨id, htarget⟩ := Option.ne_none_iff_exists'.1 fun hnone => hidle (idle_none_iff.2 hnone)
      rw [deliver, Work.run_get_bind, htarget] at hrun
      refine run_deliverTo_of_not_idle (fun hempty => ?_) hrun
      exact Server.queue_of_target? ((target?_split server).symm.trans htarget) (idle_split_some_iff.1 hempty)

theorem after_append (depot : Depot) (first second : List Call) :
    depot.after (first ++ second) = (depot.after first).after second := by
  induction first generalizing depot with
  | nil => rfl
  | cons call first ih => exact ih _

end Depot

/-! ### Sessions as calls -/

namespace Server

/-- The tables of one server become those of another one through calls. -/
def Follows (server next : Server) : Prop := ∃ calls, server.split.after calls = next.split

variable {server middle next : Server}

theorem Follows.refl (server : Server) : server.Follows server := ⟨[], rfl⟩

theorem Follows.trans (hfirst : server.Follows middle) (hsecond : middle.Follows next) :
    server.Follows next := by
  obtain ⟨first, hmiddle⟩ := hfirst
  obtain ⟨second, hnext⟩ := hsecond
  exact ⟨first ++ second, by rw [Depot.after_append, hmiddle, hnext]⟩

theorem Follows.of_run (call : Depot.Call) (outcome : Except DepotError Unit)
    (hrun : call.perform.run server.split = (outcome, next.split)) : server.Follows next :=
  ⟨[call], congrArg Prod.snd hrun⟩

theorem follows_openMailbox (server : Server) (id : MemberId) : server.Follows (server.openMailbox id) :=
  .of_run (.channel id) (.ok ()) (Depot.Work.run_bind_of_ok (Depot.run_channel server id))

theorem follows_modifyChannel (server : Server) (id : MemberId) (change : Channel → Channel) :
    server.Follows (server.modifyChannel id change) :=
  .of_run (.alter id change) (.ok ()) (Depot.run_alter server id change)

theorem follows_send (server : Server) (id : MemberId) (action : Action) :
    server.Follows (server.step (.send id action)).1 :=
  .of_run (.send id action) (.ok ()) (Depot.Work.run_bind_of_ok (Depot.run_send server id action))

theorem follows_receive {index : Nat} {lines : List Log.Line}
    (hok : server.receive index = .ok (next, lines)) : server.Follows next :=
  .of_run (.receive index) (.ok ()) (Depot.Work.run_bind_of_ok (Depot.run_receive_of_ok hok))

theorem follows_takeNotice {id : MemberId} {notice : Notice}
    (htake : server.takeNotice id = .ok (notice, next)) : server.Follows next := by
  obtain ⟨rest, hqueue, rfl⟩ := queue_of_takeNotice htake
  exact .of_run (.take id) (.ok ()) (Depot.Work.run_bind_of_ok (Depot.run_take_of_cons hqueue))

theorem follows_notify {id : MemberId} {channel heard : Channel} {notice : Notice} {line : Log.Line}
    (hchannel : server.channel? id = some channel)
    (hnotify : server.notify id channel notice = .ok (next, heard, line)) : server.Follows next := by
  obtain ⟨⟨later, text⟩, habsorb, hnext⟩ := bind_eq_ok_iff.1 hnotify
  cases hnext
  exact .of_run (.hear id notice) (.ok ()) (Depot.run_hear_of_ok hchannel habsorb)

theorem Receives.follows (hreceives : server.Receives next) : server.Follows next := by
  rcases hreceives with ⟨index, lines, hok⟩ | ⟨count, lines, hok⟩
  · exact follows_receive hok
  · exact of_receiveAll .refl .trans follows_receive hok

end Server

namespace Session

variable {session next : Session}

theorem Receives.follows (hreceives : session.Receives next) : session.server.Follows next.server := by
  rcases hreceives with rfl | ⟨server, lines, hserver, rfl⟩
  · exact .refl _
  · exact hserver.follows

theorem follows_subscribe (session : Session) (id : MemberId) (subscriber : Subscriber) :
    session.server.Follows ((session.openChannel id).subscribe id subscriber).server := by
  rw [server_subscribe]
  exact (Server.follows_openMailbox session.server id).trans (Server.follows_modifyChannel _ id _)

theorem follows_cancel (session : Session) (name : MemberId) :
    session.server.Follows (session.cancel name).2.server := by
  unfold cancel
  split
  · exact .refl _
  · unfold unsubscribe
    split
    · exact Server.follows_modifyChannel session.server _ _
    · exact .refl _

end Session

namespace Moment

variable {moment : Moment} {command : Command}

/-- What is sent to a channel goes to the server as far as the channel's transport is the server's. -/
theorem server_send (id : MemberId) (action : Action) (session : Session) (stack : List Frame) :
    (send (session.openChannel id) stack id action).session.server =
      (session.server.step (.send id action)).1 := by
  have hchannel : (session.openChannel id).channel? id = some (session.server.mailbox id).channel :=
    session.server.channel?_openMailbox id
  rw [send, hchannel, Server.step]
  generalize (session.server.mailbox id).channel = channel
  rw [Channel.uplinks]
  dsimp only
  cases channel.refusal? action with
  | some line => cases channel.transport <;> rfl
  | none =>
      cases channel.transport with
      | outlet label carry => cases label <;> rfl
      | _ => rfl

theorem follows_ask (hdrop : ∀ id, command ≠ .drop id) (session : Session) (stack : List Frame) :
    session.server.Follows (ask session stack command).session.server := by
  cases command with
  | openChannel id => exact Server.follows_openMailbox session.server id
  | send id action =>
      cases action with
      | error error => exact Server.follows_openMailbox session.server id
      | ok action =>
          rw [ask, server_send]
          exact Server.follows_send session.server id action
  | notify id notice =>
      cases notice with
      | error error => exact Server.follows_openMailbox session.server id
      | ok notice => exact Server.follows_openMailbox session.server id
  | subscribe id name respond => exact Session.follows_subscribe session id ⟨name, respond⟩
  | cancel name => exact Session.follows_cancel session name
  | setLevel level => exact .refl _
  | install id transport => exact Server.follows_modifyChannel session.server id _
  | drop id => exact absurd rfl (hdrop id)
  | receive index => exact (receives_ask_receive index session stack).follows
  | receiveAll => exact (receives_ask_receiveAll session stack).follows
  | deliver target =>
      cases target with
      | some id => exact .refl _
      | none =>
          rw [ask]
          split
          · exact .refl _
          · exact .refl _
  | deliverAll => exact .refl _
  | run => exact .refl _
  | target => exact .refl _
  | queued id => exact .refl _

theorem follows_hear (id : MemberId) (notice : Notice) (session : Session) (stack : List Frame) :
    session.server.Follows (hear session stack id notice).session.server := by
  unfold hear
  split
  · exact .refl _
  · rename_i channel hchannel
    split
    · exact .refl _
    · rename_i server heard line hnotify
      have hfollows : session.server.Follows server := Server.follows_notify hchannel hnotify
      split
      · exact hfollows
      · exact hfollows

theorem server_publish (channel : Channel) (notice : Notice) (handled : Bool)
    (waiting : List (Nat × Subscriber)) (session : Session) (stack : List Frame) :
    (publish session stack channel notice handled waiting).session.server = session.server := by
  cases waiting with
  | nil => rfl
  | cons entry waiting =>
      rw [publish]
      split
      · rfl
      · rfl

/-- As long as no channel is dropped, each moment is a matter of calls on the tables. -/
theorem follows_next (hdrop : ∀ id, moment.drops id = false) :
    moment.session.server.Follows moment.next.session.server := by
  obtain ⟨session, task, stack⟩ := moment
  cases task with
  | run program =>
      cases program with
      | finish verdict =>
          rcases session_takeVerdict verdict session stack with hsame | ⟨line, hlog⟩
          · rw [next, hsame]
            exact .refl _
          · rw [next, hlog]
            exact .refl _
      | perform command next => exact .refl _
  | ask command =>
      refine follows_ask (fun id heq => ?_) session stack
      have hid := hdrop id
      rw [heq, drops] at hid
      exact Bool.noConfusion (hid.symm.trans BEq.rfl)
  | hear id notice => exact follows_hear id notice session stack
  | publish channel notice waiting handled =>
      rw [next, server_publish]
      exact .refl _
  | deliver id =>
      rcases session_deliver id session stack with hsame | ⟨notice, server, htake, hserver⟩
      · rw [next, hsame]
        exact .refl _
      · rw [next, hserver]
        exact Server.follows_takeNotice htake
  | drain received delivered =>
      rw [next, session_drain]
      exact .refl _
  | settle => exact (receives_settle session stack).follows
  | answer outcome =>
      rcases session_takeOutcome outcome session stack with hsame | ⟨verb, value, hrecord⟩
      · rw [next, hsame]
        exact .refl _
      · rw [next, hrecord]
        exact .refl _

theorem follows_after {count : Nat}
    (hdrop : ∀ earlier < count, ∀ id, (moment.after earlier).drops id = false) :
    moment.session.server.Follows (moment.after count).session.server := by
  induction count with
  | zero => exact .refl _
  | succ count ih =>
      have hearlier := ih fun earlier hlt => hdrop earlier (Nat.lt_succ_of_lt hlt)
      exact hearlier.trans (follows_next (hdrop count (Nat.lt_succ_self count)))

end Moment

/-! ### Deliveries in sessions -/

namespace Session

variable {exec : Command → Run Outcome} {session final : Session} {id : MemberId} {target : Option MemberId}
  {failure : Failure}

theorem deliverTo_of_error {error : RequestError} (htake : session.server.takeNotice id = .error error) :
    deliverTo exec id session = some (.error (.request error), session) := by
  simp only [deliverTo, bind, StateT.bind, get, getThe, MonadStateOf.get, StateT.get, pure,
    Option.bind_some, htake]
  rfl

theorem deliverTo_of_ok {notice : Notice} {taken : Server}
    (htake : session.server.takeNotice id = .ok (notice, taken)) :
    deliverTo exec id session = notify exec id notice { session with server := taken } := by
  simp only [deliverTo, bind, StateT.bind, get, getThe, MonadStateOf.get, StateT.get, pure,
    Option.bind_some, htake]
  rfl

/-- Delivering to the member that is to be served next is delivering to that member. -/
theorem exec_deliver_none (limit : Nat) (htarget : session.server.target? = some id) :
    Session.exec (limit + 1) (.deliver none) session = deliverTo (Session.exec limit) id session := by
  simp only [Session.exec, step, bind, StateT.bind, get, getThe, MonadStateOf.get, StateT.get, pure,
    Option.bind_some, htarget]

theorem exec_deliver_of_idle (hidle : session.server.split.Idle target) (limit : Nat) :
    ∃ error, Session.exec (limit + 1) (.deliver target) session =
      some (.error (.request error), session) := by
  cases target with
  | none =>
      have htarget : session.server.target? = none :=
        (Depot.target?_split _).symm.trans (Depot.idle_none_iff.1 hidle)
      refine ⟨.noNotices, ?_⟩
      simp only [Session.exec, step, bind, StateT.bind, get, getThe, MonadStateOf.get, StateT.get, pure,
        Option.bind_some, htarget]
      rfl
  | some id =>
      obtain ⟨error, htake⟩ := Server.takeNotice_of_queue_eq_nil (Depot.idle_split_some_iff.1 hidle)
      exact ⟨error, deliverTo_of_error htake⟩

/-- A notice that a channel is told fails with nothing but an error of the channel's state: what goes wrong
with its subscribers is kept from whoever told it. -/
theorem not_isParameter_of_notify {notice : Notice}
    (hnotify : notify exec id notice session = some (.error failure, final)) :
    failure.isParameter = false := by
  cases hchannel : session.channel? id with
  | none =>
      rw [notify_eq_of_closed hchannel] at hnotify
      cases hnotify
  | some channel =>
      cases hheard : session.server.notify id channel notice with
      | error cause =>
          rw [notify_eq_of_error hchannel hheard] at hnotify
          cases hnotify
          rw [Server.notify] at hheard
          cases habsorb : channel.absorb notice with
          | ok absorbed =>
              rw [habsorb] at hheard
              cases hheard
          | error other =>
              rw [habsorb] at hheard
              cases hheard
              exact Channel.not_isParameter_of_absorb habsorb
      | ok heard =>
          obtain ⟨server, next, line⟩ := heard
          rw [notify_eq session hchannel hheard] at hnotify
          obtain ⟨handled, hflag⟩ := publish_eq_flag hnotify
          cases hflag

theorem not_isParameter_of_deliverTo (hqueue : session.server.queue id ≠ [])
    (hdeliver : deliverTo exec id session = some (.error failure, final)) : failure.isParameter = false := by
  obtain ⟨notice, rest, hcons⟩ := List.exists_cons_of_ne_nil hqueue
  rw [deliverTo_of_ok (Server.takeNotice_of_queue_eq_cons hcons)] at hdeliver
  exact not_isParameter_of_notify hdeliver

theorem exec_deliver_of_not_idle (hidle : ¬session.server.split.Idle target) {limit : Nat}
    (hexec : Session.exec (limit + 1) (.deliver target) session = some (.error failure, final)) :
    failure.isParameter = false := by
  cases target with
  | some id =>
      exact not_isParameter_of_deliverTo (fun hnil => hidle (Depot.idle_split_some_iff.2 hnil)) hexec
  | none =>
      obtain ⟨id, htarget⟩ := Option.ne_none_iff_exists'.1 fun hnone => hidle (Depot.idle_none_iff.2 hnone)
      rw [Depot.target?_split] at htarget
      rw [exec_deliver_none limit htarget] at hexec
      exact not_isParameter_of_deliverTo (Server.queue_of_target? htarget) hexec

theorem isParameter_iff_idle {limit : Nat}
    (hexec : Session.exec limit (.deliver target) session = some (.error failure, final)) :
    failure.isParameter = true ↔ session.server.split.Idle target := by
  cases limit with
  | zero => cases hexec
  | succ limit =>
      by_cases hidle : session.server.split.Idle target
      · obtain ⟨error, hrequest⟩ := exec_deliver_of_idle hidle limit
        rw [hrequest] at hexec
        cases hexec
        exact iff_of_true rfl hidle
      · exact iff_of_false (Bool.eq_false_iff.1 (exec_deliver_of_not_idle hidle hexec)) hidle

end Session

namespace Depot

/-- The tables have the same keys, the members among them, and nothing that is asked for misses a queue. -/
structure InStep (depot : Depot) : Prop where
  keys : ∀ id, (depot.channels.get? id).isSome = (depot.queues.get? id).isSome
  members : ∀ id ∈ depot.members, (depot.channels.get? id).isSome = true
  lookups : ∀ (call : Call) id, (call.perform.run depot).1 ≠ .error (.missingQueue id)

theorem inStep_split {server : Server} (hhoused : server.Housed) : server.split.InStep where
  keys id := by
    rw [Server.get?_channels_split, Server.get?_queues_split, Server.channel?, Option.isSome_map,
      Option.isSome_map]
  members id hid := by
    rw [Server.get?_channels_split, Server.channel?, Option.isSome_map]
    exact hhoused id hid
  lookups call id := (orderly_perform server call).ne_missingQueue id

theorem deliver_refuses_iff (server : Server) (target : Option MemberId) :
    (∃ failure, ((deliver target).run server.split).1 = .error (.failed failure) ∧
        failure.isParameter = true) ↔ server.split.Idle target := by
  by_cases hidle : server.split.Idle target
  · obtain ⟨error, hrefused⟩ := run_deliver_of_idle hidle
    rw [hrefused]
    exact iff_of_true ⟨.request error, rfl, rfl⟩ hidle
  · refine iff_of_false ?_ hidle
    rintro ⟨failure, hfailed, hparameter⟩
    exact Bool.eq_false_iff.1 (run_deliver_of_not_idle hidle (Prod.ext hfailed rfl)) hparameter

/-- **Two tables in step.** Whatever was asked for so far, by users of the server or by subscribers while they
were called, the members with a channel are those with a queue, all current members are among them, and nothing
that is asked for next misses a queue. The next one to be served is missing if and only if all queues are empty,
and is else the least one of those with the longest queue. A delivery, to it or to a given member, is refused
as a wrong parameter if and only if nothing waits there, and then leaves everything as it is. As long as a
session on a server drops no channel, its server has tables of this kind at every moment. Whatever subscribers
are called, its deliveries are refused in these cases, at once and with nothing changed, and in no other ones. -/
theorem tables_stay_in_step :
    (∀ calls : List Call,
      let depot := after {} calls
      depot.InStep ∧
      (depot.target? = none ↔ ∀ id queue, depot.queues.get? id = some queue → queue = []) ∧
      (∀ id, depot.target? = some id ↔
        ∃ queue, depot.queues.get? id = some queue ∧ queue ≠ [] ∧
          ∀ other queue', depot.queues.get? other = some queue' →
            queue'.length ≤ queue.length ∧ (queue'.length = queue.length → id ≤ other)) ∧
      ∀ target,
        ((∃ failure, ((deliver target).run depot).1 = .error (.failed failure) ∧
          failure.isParameter = true) ↔ depot.Idle target) ∧
        (depot.Idle target → ((deliver target).run depot).2 = depot)) ∧
    (∀ (logger : Log.Logger) (program : Program) (count : Nat),
      let start : Moment := ⟨.onServer logger, .run program, []⟩
      (∀ earlier < count, ∀ id, (start.after earlier).drops id = false) →
        ∃ calls, (start.after count).session.server.split = after {} calls) ∧
    ∀ (limit : Nat) (target : Option MemberId) (session : Session),
      session.server.split.target? = session.server.target? ∧
      (session.server.split.Idle target →
        ∃ error, Session.exec (limit + 1) (.deliver target) session =
          some (.error (.request error), session)) ∧
      ∀ failure final, Session.exec limit (.deliver target) session = some (.error failure, final) →
        (failure.isParameter = true ↔ session.server.split.Idle target) := by
  refine ⟨fun calls => ?_, fun logger program count => ?_, fun limit target session => ?_⟩
  · obtain ⟨server, hsplit, hhoused⟩ := exists_split_after Server.housed_empty calls
    have hdepot : after {} calls = server.split := hsplit
    rw [hdepot]
    refine ⟨inStep_split hhoused, idle_none_iff.symm, fun id => ?_, fun target => ⟨?_, fun hidle => ?_⟩⟩
    · rw [target?, Directory.largest?_eq_some_iff]
      simp only [List.length_pos_iff]
    · exact deliver_refuses_iff server target
    · obtain ⟨error, hrefused⟩ := run_deliver_of_idle hidle
      rw [hrefused]
  · intro start hdrop
    obtain ⟨calls, hcalls⟩ := Moment.follows_after hdrop
    exact ⟨calls, hcalls.symm⟩
  · exact ⟨target?_split session.server, fun hidle => Session.exec_deliver_of_idle hidle limit,
      fun failure final hexec => Session.isParameter_iff_idle hexec⟩

/-- Of two members for whom as much waits, the lesser one is served first, and then the other one. -/
example :
    let entered : Depot := after {}
      [.send [65] (.control .selfEnter), .receive 0, .send [66] (.control .selfEnter), .receive 0]
    entered.target? = some [65] ∧ (entered.after [.deliver none]).target? = some [66] := by
  decide

end Depot

end GroupChat
