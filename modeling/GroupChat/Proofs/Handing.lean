import GroupChat.Proofs.Returning
import GroupChat.Proofs.Session

/-!
# What transports are handed

Only a send hands anything to a transport, and only one that the channel takes: a transport is installed, and
the action fits what the owner sees of the membership. Main statement: a moment that is no such send calls no
transport, reports nothing as sent, and adds no packet to those that the server has yet to process.
-/

namespace GroupChat

/-- What an owner may ask for where it stands: it enters from outside, and from inside it leaves, sends a
payload, or has others enter and leave, but not itself. -/
def Action.Suits (owner : MemberId) (standing : Standing) : Action → Prop
  | .raw _ _ => standing ≠ none
  | .control .selfEnter => standing = none
  | .control .selfLeave => standing ≠ none
  | .control (.delta change) => standing ≠ none ∧ owner ∉ change.enter ∧ owner ∉ change.leave

theorem Action.accepted_iff_suits (owner : MemberId) (standing : Standing) (action : Action) :
    action.accepted owner standing = true ↔ action.Suits owner standing := by
  cases action with
  | raw payload recipients => exact Option.isSome_iff_ne_none
  | control change =>
      cases change with
      | selfEnter => exact Option.isNone_iff_eq_none
      | selfLeave => exact Option.isSome_iff_ne_none
      | delta change =>
          have houtside (members : MemberSet) : (!members.contains owner) = true ↔ owner ∉ members := by
            rw [Bool.not_eq_true', ← Bool.not_eq_true]
            rfl
          rw [accepted, Control.accepted, Bool.and_eq_true, Bool.and_eq_true, Option.isSome_iff_ne_none,
            houtside, houtside, and_assoc, Suits]

namespace Channel

variable {channel : Channel} {action : Action}

/-- A transport is installed, and the action fits what the owner sees of the membership. -/
def Takes (channel : Channel) (action : Action) : Prop :=
  channel.transport ≠ .absent ∧ action.Suits channel.owner channel.standing

theorem refusal?_eq_none_iff : channel.refusal? action = none ↔ channel.Takes action := by
  rw [Takes, ← Action.accepted_iff_suits]
  unfold refusal?
  by_cases hfits : action.accepted channel.owner channel.standing = true
  · rw [if_pos hfits]
    cases channel.transport <;> simp [hfits]
  · rw [if_neg hfits]
    cases channel.transport <;> cases action <;> simp [hfits]

theorem exists_refusal (htakes : ¬channel.Takes action) : ∃ line, channel.refusal? action = some line :=
  Option.ne_none_iff_exists'.1 fun hnone => htakes (refusal?_eq_none_iff.1 hnone)

end Channel

/-- What was reported as sent, and by which transport. -/
def Event.sent? : Event → Option (Bytes × Action)
  | .sent label action => some (label, action)
  | _ => none

def Transport.label? : Transport → Option Bytes
  | .outlet label _ => label
  | _ => none

namespace Server

/-- The channel that a command for a member is about, which is made if there is none. -/
def addressed (server : Server) (id : MemberId) : Channel := (server.mailbox id).channel

end Server

namespace Session

def sent (session : Session) : List (Bytes × Action) := session.events.filterMap Event.sent?

/-- A transport reports the action that it is handed. -/
def handOver (session : Session) (label : Option Bytes) (action : Action) : Session :=
  match label with
  | some label => session.record (.sent label action)
  | none => session

/-- Nothing was reported as sent, and the server was given no packet. -/
structure Withholds (session next : Session) : Prop where
  sent : next.sent = session.sent
  incoming : next.server.incoming.Sublist session.server.incoming

variable {session middle next : Session} {id : MemberId} {action : Action}

theorem Withholds.refl (session : Session) : session.Withholds session := ⟨rfl, .refl _⟩

theorem Withholds.trans (hfirst : session.Withholds middle) (hsecond : middle.Withholds next) :
    session.Withholds next :=
  ⟨hsecond.sent.trans hfirst.sent, hsecond.incoming.trans hfirst.incoming⟩

theorem Withholds.of_server {server : Server} (hincoming : server.incoming.Sublist session.server.incoming) :
    session.Withholds { session with server } :=
  ⟨rfl, hincoming⟩

theorem sent_record (session : Session) (event : Event) :
    (session.record event).sent = session.sent ++ event.sent?.toList := by
  rw [sent, record, List.filterMap_append, sent]
  cases event <;> rfl

theorem Withholds.record (session : Session) {event : Event} (hevent : event.sent? = none) :
    session.Withholds (session.record event) :=
  ⟨by rw [sent_record, hevent, Option.toList_none, List.append_nil], .refl _⟩

theorem Withholds.log (session : Session) (lines : List Log.Line) : session.Withholds (session.log lines) := by
  refine ⟨?_, .refl _⟩
  have hlines : ((session.logger.delivered lines).map Event.log).filterMap Event.sent? = [] := by
    rw [List.filterMap_map]
    exact List.filterMap_eq_nil_iff.2 fun _ _ => rfl
  exact List.filterMap_append.trans (by rw [hlines, List.append_nil]; rfl)

theorem withholds_openChannel (session : Session) (id : MemberId) :
    session.Withholds (session.openChannel id) :=
  ⟨rfl, by rw [openChannel, Server.incoming_openMailbox]⟩

theorem withholds_subscribe (session : Session) (id : MemberId) (subscriber : Subscriber) :
    session.Withholds (session.subscribe id subscriber) := by
  unfold subscribe
  split
  · exact .refl session
  · exact ⟨rfl, .refl _⟩

theorem withholds_cancel (session : Session) (name : MemberId) :
    session.Withholds (session.cancel name).2 := by
  unfold cancel
  split
  · exact .refl session
  · rw [unsubscribe]
    split
    · exact ⟨rfl, .refl _⟩
    · exact ⟨rfl, .refl _⟩

theorem channel?_openChannel (session : Session) (id : MemberId) :
    (session.openChannel id).channel? id = some (session.server.addressed id) := by
  rw [channel?, Server.channel?, openChannel, Server.mailbox?_openMailbox, if_pos rfl]
  rfl

end Session

namespace Server

variable {server next : Server}

theorem Receives.sublist (hreceives : server.Receives next) : next.incoming.Sublist server.incoming := by
  rcases hreceives with ⟨index, lines, hok⟩ | ⟨count, lines, hok⟩
  · rcases server.receive_cases index with ⟨error, herror⟩ | ⟨packet, entries, more, -, hreceive, -⟩
    · rw [herror] at hok
      cases hok
    · rw [hreceive] at hok
      cases hok
      rw [incoming_postAll]
      exact List.eraseIdx_sublist _ _
  · obtain ⟨more, hreceive, hempty⟩ := server.receiveAll_eq_ok
    rw [hreceive] at hok
    cases hok
    rw [hempty]
    exact List.nil_sublist _

end Server

theorem Session.Receives.withholds {session next : Session} (hreceives : session.Receives next) :
    session.Withholds next := by
  rcases hreceives with rfl | ⟨server, lines, hserver, rfl⟩
  · exact .refl next
  · exact (Withholds.of_server hserver.sublist).trans (.log _ lines)

namespace Moment

variable {session : Session} {stack : List Frame} {moment : Moment} {id : MemberId} {action : Action}

/-- The transport that is called now, and the action that it is handed. -/
def handed? (moment : Moment) : Option (Transport × Action) :=
  match moment.task with
  | .ask (.send id (.ok action)) =>
      match (moment.session.server.addressed id).refusal? action with
      | none => some ((moment.session.server.addressed id).transport, action)
      | some _ => none
  | _ => none

theorem handed?_of_takes (htask : moment.task = .ask (.send id (.ok action)))
    (htakes : (moment.session.server.addressed id).Takes action) :
    moment.handed? = some ((moment.session.server.addressed id).transport, action) := by
  rw [handed?, htask]
  simp only [Channel.refusal?_eq_none_iff.2 htakes]

/-- Only a send that is taken hands anything over. -/
theorem exists_send_of_handed? {transport : Transport} (hhanded : moment.handed? = some (transport, action)) :
    ∃ id, moment.task = .ask (.send id (.ok action)) ∧ (moment.session.server.addressed id).Takes action ∧
      transport = (moment.session.server.addressed id).transport := by
  unfold handed? at hhanded
  split at hhanded
  · rename_i id other htask
    split at hhanded
    · rename_i hrefusal
      cases hhanded
      exact ⟨id, htask, Channel.refusal?_eq_none_iff.1 hrefusal, rfl⟩
    · cases hhanded
  · cases hhanded

section Send

variable (htask : moment.task = .ask (.send id (.ok action)))

include htask

theorem next_send : moment.next = send (moment.session.openChannel id) moment.stack id action := by
  rw [next, htask]
  rfl

/-- A send that is not taken is answered at once, and leaves nothing but a message. -/
theorem next_of_not_takes (htakes : ¬(moment.session.server.addressed id).Takes action) :
    ∃ line, moment.next =
      answer ((moment.session.openChannel id).log [line]) moment.stack (.ok (.flag false)) := by
  obtain ⟨line, hline⟩ := Channel.exists_refusal htakes
  refine ⟨line, ?_⟩
  rw [next_send htask, send]
  simp only [Session.channel?_openChannel, hline]

variable (htakes : (moment.session.server.addressed id).Takes action)

include htakes

theorem next_of_uplink (htransport : (moment.session.server.addressed id).transport = .uplink) :
    moment.next =
      answer { moment.session.openChannel id with
        server := (moment.session.openChannel id).server.submit ⟨id, action⟩ } moment.stack
        (.ok (.flag true)) := by
  rw [next_send htask, send]
  simp only [Session.channel?_openChannel, Channel.refusal?_eq_none_iff.2 htakes, htransport]

theorem next_of_outlet {label : Option Bytes} {carry : Action → Program}
    (htransport : (moment.session.server.addressed id).transport = .outlet label carry) :
    moment.next = (⟨(moment.session.openChannel id).handOver label action, .run (carry action), []⟩ : Moment).onto
      (.carrying :: moment.stack) := by
  rw [next_send htask, send]
  simp only [Session.channel?_openChannel, Channel.refusal?_eq_none_iff.2 htakes, htransport]
  cases label <;> rfl

end Send

theorem withholds_takeVerdict (verdict : Except Bytes Bool) (session : Session) (stack : List Frame) :
    session.Withholds (takeVerdict session verdict stack).session := by
  rcases session_takeVerdict verdict session stack with hsame | ⟨line, hlog⟩
  · rw [hsame]
    exact .refl session
  · rw [hlog]
    exact .log session [line]

theorem withholds_takeOutcome (outcome : Outcome) (session : Session) (stack : List Frame) :
    session.Withholds (takeOutcome session outcome stack).session := by
  rcases session_takeOutcome outcome session stack with hsame | ⟨verb, value, hrecord⟩
  · rw [hsame]
    exact .refl session
  · rw [hrecord]
    exact .record session rfl

theorem withholds_hear (id : MemberId) (notice : Notice) (session : Session) (stack : List Frame) :
    session.Withholds (hear session stack id notice).session := by
  unfold hear
  split
  · exact .refl session
  · split
    · exact .refl session
    · rename_i server heard line hnotify
      have hincoming : server.incoming = session.server.incoming := by
        rw [Server.eq_modifyChannel_of_notify hnotify]
        rfl
      have hlog : session.Withholds ({ session with server }.log [line]) :=
        (Session.Withholds.of_server (by rw [hincoming])).trans (.log _ _)
      split
      · exact hlog.trans ⟨rfl, .refl _⟩
      · exact hlog

theorem withholds_publish (channel : Channel) (notice : Notice) (handled : Bool)
    (waiting : List (Nat × Subscriber)) (session : Session) (stack : List Frame) :
    session.Withholds (publish session stack channel notice handled waiting).session := by
  unfold publish
  split
  · exact ⟨rfl, .refl _⟩
  · split
    · exact (Session.Withholds.record session rfl).trans ⟨rfl, .refl _⟩
    · exact .refl session

theorem withholds_deliver (id : MemberId) (session : Session) (stack : List Frame) :
    session.Withholds (deliver session stack id).session := by
  rcases session_deliver id session stack with hsame | ⟨notice, server, htake, hserver⟩
  · rw [hsame]
    exact .refl session
  · rw [hserver]
    obtain ⟨rest, -, rfl⟩ := Server.queue_of_takeNotice htake
    exact .of_server (.refl _)

theorem withholds_ask (command : Command)
    (hhanded : (⟨session, .ask command, stack⟩ : Moment).handed? = none) :
    session.Withholds (ask session stack command).session := by
  cases command with
  | openChannel id => exact Session.withholds_openChannel session id
  | send id action =>
      cases action with
      | error error => exact Session.withholds_openChannel session id
      | ok action =>
          have htask : (⟨session, .ask (.send id (.ok action)), stack⟩ : Moment).task =
              .ask (.send id (.ok action)) := rfl
          have htakes : ¬(session.server.addressed id).Takes action := fun htakes => by
            rw [handed?_of_takes htask htakes] at hhanded
            cases hhanded
          obtain ⟨line, hnext⟩ := next_of_not_takes htask htakes
          have hsession : (ask session stack (.send id (.ok action))).session =
              (session.openChannel id).log [line] :=
            congrArg Moment.session hnext
          rw [hsession]
          exact (Session.withholds_openChannel session id).trans (.log _ _)
  | notify id notice =>
      cases notice with
      | error error => exact Session.withholds_openChannel session id
      | ok notice => exact Session.withholds_openChannel session id
  | subscribe id name respond =>
      exact (Session.withholds_openChannel session id).trans (Session.withholds_subscribe _ id ⟨name, respond⟩)
  | cancel name => exact Session.withholds_cancel session name
  | setLevel level => exact ⟨rfl, .refl _⟩
  | install id transport => exact ⟨rfl, .refl _⟩
  | drop id => exact ⟨rfl, .refl _⟩
  | receive index => exact (receives_ask_receive index session stack).withholds
  | receiveAll => exact (receives_ask_receiveAll session stack).withholds
  | deliver id =>
      cases id with
      | some id => exact .refl session
      | none =>
          rw [ask]
          split
          · exact .refl session
          · exact .refl session
  | deliverAll => exact .refl session
  | run => exact .refl session
  | target => exact .refl session
  | queued id => exact .refl session

/-- **One moment.** Nothing is reported as sent, and no packet is added, where nothing is handed over. -/
theorem withholds_next (hhanded : moment.handed? = none) : moment.session.Withholds moment.next.session := by
  obtain ⟨session, task, stack⟩ := moment
  cases task with
  | run program =>
      cases program with
      | perform command next => exact .refl session
      | finish verdict => exact withholds_takeVerdict verdict session stack
  | ask command => exact withholds_ask command hhanded
  | hear id notice => exact withholds_hear id notice session stack
  | publish channel notice waiting handled => exact withholds_publish channel notice handled waiting session stack
  | deliver id => exact withholds_deliver id session stack
  | drain received delivered =>
      rw [next, session_drain]
      exact .refl session
  | settle => exact (receives_settle session stack).withholds
  | answer outcome => exact withholds_takeOutcome outcome session stack

/-- Taking up a command that is no send leaves those waiting that were. -/
theorem stack_ask {command : Command} (hsend : ∀ id action, command ≠ .send id (.ok action)) :
    (ask session stack command).stack = stack := by
  cases command with
  | send id action =>
      cases action with
      | error error => rfl
      | ok action => exact absurd rfl (hsend id action)
  | notify id notice => cases notice <;> rfl
  | deliver id =>
      cases id with
      | some id => rfl
      | none =>
          rw [ask]
          split <;> rfl
  | deliverAll => rfl
  | run => rfl
  | _ =>
      simp only [ask]
      split <;> rfl

theorem length_takeVerdict_le (verdict : Except Bytes Bool) :
    (takeVerdict session verdict stack).stack.length ≤ stack.length := by
  cases stack with
  | nil => exact Nat.le_refl _
  | cons frame stack => cases frame <;> cases verdict <;> simp [takeVerdict, answer]

theorem length_takeOutcome_le (outcome : Outcome) :
    (takeOutcome session outcome stack).stack.length ≤ stack.length := by
  cases stack with
  | nil => exact Nat.le_refl _
  | cons frame stack => cases frame <;> cases outcome <;> simp [takeOutcome, answer]

theorem stack_deliver (id : MemberId) : (deliver session stack id).stack = stack := by
  unfold deliver
  split
  · rfl
  · rfl

theorem stack_settle : (settle session stack).stack = stack := by
  unfold settle
  split
  · rfl
  · rename_i result next _
    cases result with
    | error failure => rfl
    | ok received => rfl

/-- A send is answered at once, or waits for the transport that it has called. -/
theorem next_send_cases (htask : moment.task = .ask (.send id (.ok action))) :
    (∃ outcome, moment.next = answer moment.next.session moment.stack outcome) ∨
      ∃ label carry, (moment.session.server.addressed id).transport = .outlet label carry ∧
        moment.handed? = some (.outlet label carry, action) ∧
          moment.next = ⟨moment.next.session, .run (carry action), .carrying :: moment.stack⟩ := by
  by_cases htakes : (moment.session.server.addressed id).Takes action
  · cases htransport : (moment.session.server.addressed id).transport with
    | absent => exact absurd htransport htakes.1
    | uplink => exact .inl ⟨_, by rw [next_of_uplink htask htakes htransport]; rfl⟩
    | outlet label carry =>
        refine .inr ⟨label, carry, rfl, ?_, by rw [next_of_outlet htask htakes htransport]; rfl⟩
        rw [handed?_of_takes htask htakes, htransport]
  · obtain ⟨line, hnext⟩ := next_of_not_takes htask htakes
    exact .inl ⟨_, by rw [hnext]; rfl⟩

/-- **Calls of transports.** A transport is called only with what is handed over. -/
theorem handed?_of_carrying (hcarrying : moment.next.stack = .carrying :: moment.stack) :
    ∃ label carry action, moment.handed? = some (.outlet label carry, action) ∧
      moment.next.task = .run (carry action) := by
  obtain ⟨session, task, stack⟩ := moment
  -- Most tasks leave the frames that wait as they are, and an answer takes one of them away.
  have hsame {later : Moment} (hstack : later.stack = stack) (heq : later.stack = .carrying :: stack) : False :=
    List.cons_ne_self _ _ (heq.symm.trans hstack)
  have hshorter {later : Moment} (hlength : later.stack.length ≤ stack.length)
      (heq : later.stack = .carrying :: stack) : False := by
    rw [heq, List.length_cons] at hlength
    omega
  cases task with
  | run program =>
      cases program with
      | perform command next => cases hcarrying
      | finish verdict => exact (hshorter (length_takeVerdict_le verdict) hcarrying).elim
  | ask command =>
      by_cases hsend : ∃ id action, command = .send id (.ok action)
      · obtain ⟨id, action, rfl⟩ := hsend
        have htask : (⟨session, .ask (.send id (.ok action)), stack⟩ : Moment).task =
            .ask (.send id (.ok action)) := rfl
        rcases next_send_cases htask with ⟨outcome, hnext⟩ | ⟨label, carry, -, hhanded, hnext⟩
        · exact (hsame (congrArg Moment.stack hnext) hcarrying).elim
        · exact ⟨label, carry, action, hhanded, congrArg Moment.task hnext⟩
      · exact (hsame (stack_ask fun id action heq => hsend ⟨id, action, heq⟩) hcarrying).elim
  | hear id notice => exact (hsame (stack_hear session stack id notice) hcarrying).elim
  | publish channel notice waiting handled =>
      cases waiting with
      | nil => exact (hsame rfl hcarrying).elim
      | cons entry waiting =>
          simp only [next, publish] at hcarrying
          split at hcarrying
          · cases hcarrying
          · exact (hsame rfl hcarrying).elim
  | deliver id => exact (hsame (stack_deliver id) hcarrying).elim
  | drain received delivered =>
      simp only [next, drain] at hcarrying
      split at hcarrying
      · refine (hsame ?_ hcarrying).elim
        unfold drained
        split
        · rfl
        · split
          · rfl
          · rfl
      · cases hcarrying
  | settle => exact (hsame stack_settle hcarrying).elim
  | answer outcome => exact (hshorter (length_takeOutcome_le outcome) hcarrying).elim

end Moment

end GroupChat
