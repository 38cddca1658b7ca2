import GroupChat.Session.Exec

/-!
# Sessions moment by moment

Carrying out a program gives its verdict and the session after it, and says nothing of the time in between.
Here a session goes on by single steps, with all that is still to be done in view: commands that wait for
others, and notices that not all subscribers were called for. Main statement: a program that is carried out
within some limit comes to the same end step by step.
-/

namespace GroupChat

/-- What is done next. -/
inductive Task where
  | run (program : Program)
  | ask (command : Command)
  | hear (id : MemberId) (notice : Notice)
  /-- Calls the subscribers that wait, unless they are cancelled first. -/
  | publish (channel : Channel) (notice : Notice) (waiting : List (Nat × Subscriber)) (handled : Bool)
  | deliver (id : MemberId)
  /-- Delivers notices until none are left, maybe after packets were received in order to settle. -/
  | drain (received : Option Nat) (delivered : Nat)
  | settle
  | answer (outcome : Outcome)

/-- What goes on once a task has ended. -/
inductive Frame where
  | asking (verb : Verb) (next : Outcome → Program)
  | calling (channel : Channel) (notice : Notice) (waiting : List (Nat × Subscriber)) (handled : Bool)
  | carrying
  | draining (received : Option Nat) (delivered : Nat)

structure Moment where
  session : Session
  task : Task
  stack : List Frame

namespace Moment

variable (session : Session) (stack : List Frame)

def answer (outcome : Outcome) : Moment := ⟨session, .answer outcome, stack⟩

def send (id : MemberId) (action : Action) : Moment :=
  match session.channel? id with
  | none => answer session stack (.ok (.flag false))
  | some channel =>
      match channel.refusal? action with
      | some line => answer (session.log [line]) stack (.ok (.flag false))
      | none =>
          match channel.transport with
          | .absent => answer session stack (.ok (.flag false))
          | .uplink =>
              answer { session with server := session.server.submit ⟨id, action⟩ } stack
                (.ok (.flag true))
          | .outlet none carry => ⟨session, .run (carry action), .carrying :: stack⟩
          | .outlet (some label) carry =>
              ⟨session.record (.sent label action), .run (carry action), .carrying :: stack⟩

/-- Takes up a command. Those that call nobody are carried out at once. -/
def ask : Command → Moment
  | .send id (.ok action) => send (session.openChannel id) stack id action
  | .notify id (.ok notice) => ⟨session.openChannel id, .hear id notice, stack⟩
  | .deliver (some id) => ⟨session, .deliver id, stack⟩
  | .deliver none =>
      match session.server.target? with
      | none => answer session stack (.error (.request .noNotices))
      | some id => ⟨session, .deliver id, stack⟩
  | .deliverAll => ⟨session, .drain none 0, stack⟩
  | .run => ⟨session, .settle, stack⟩
  | command =>
      match Session.step (fun _ => failure) 0 command session with
      | none => ⟨session, .ask command, stack⟩
      | some (outcome, next) => answer next stack outcome

def hear (id : MemberId) (notice : Notice) : Moment :=
  match session.channel? id with
  | none => answer session stack (.ok (.flag false))
  | some channel =>
      match session.server.notify id channel notice with
      | .error failure => answer session stack (.error failure)
      | .ok (server, next, line) =>
          if next.publishes notice then
            ⟨({ session with server }.log [line]).beginPublishing next.owner,
              .publish next notice next.subscriptions.active false, stack⟩
          else answer ({ session with server }.log [line]) stack (.ok (.flag false))

def call (id : MemberId) (notice : Notice) (subscriber : Subscriber) : Moment :=
  let standing := session.standing id
  ⟨(session.record (.notice subscriber.name notice standing)).countCall subscriber.name,
    .run (subscriber.respond (session.callCount subscriber.name) notice standing), stack⟩

def publish (channel : Channel) (notice : Notice) (handled : Bool) : List (Nat × Subscriber) → Moment
  | [] => answer (session.endPublishing channel.owner) stack (.ok (.flag handled))
  | (key, subscriber) :: waiting =>
      if session.isSubscribed channel.owner key then
        call session (.calling channel notice waiting handled :: stack) channel.owner notice subscriber
      else ⟨session, .publish channel notice waiting handled, stack⟩

def deliver (id : MemberId) : Moment :=
  match session.server.takeNotice id with
  | .error error => answer session stack (.error (.request error))
  | .ok (notice, server) => ⟨{ session with server }, .hear id notice, stack⟩

/-- Goes on once no notices are left: while settling, until there were none and no packets either. -/
def drained (received : Option Nat) (delivered : Nat) : Moment :=
  match received with
  | none => answer session stack (.ok (.count delivered))
  | some received =>
      if received = 0 ∧ delivered = 0 then answer session stack (.ok .nothing)
      else ⟨session, .settle, stack⟩

def drain (received : Option Nat) (delivered : Nat) : Moment :=
  match session.server.target? with
  | none => drained session stack received delivered
  | some id => ⟨session, .deliver id, .draining received delivered :: stack⟩

/-- Goes on after a delivery of all notices, with those that were delivered before it. -/
def drainOn (received : Option Nat) (delivered : Nat) : Except Failure Nat → Moment
  | .error failure => answer session stack (.error failure)
  | .ok more => drained session stack received (delivered + more)

/-- Goes on after packets were received in order to settle. -/
def settleOn : Except Failure Nat → Moment
  | .error failure => answer session stack (.error failure)
  | .ok received => ⟨session, .drain (some received) 0, stack⟩

def settle : Moment :=
  match Session.serve Server.receiveAll session with
  | none => ⟨session, .settle, stack⟩
  | some (result, next) => settleOn next stack result

/-- Goes on after a program, which only subscribers and transports answer with. -/
def takeVerdict (verdict : Except Bytes Bool) : List Frame → Moment
  | .calling channel notice waiting handled :: stack =>
      match verdict with
      | .ok more => ⟨session, .publish channel notice waiting (handled || more), stack⟩
      | .error text =>
          ⟨session.log [channel.line .error
              (Bytes.ofString "subscriber failed: " ++ (Failure.raised text).message)],
            .publish channel notice waiting handled, stack⟩
  | .carrying :: stack =>
      match verdict with
      | .ok _ => answer session stack (.ok (.flag true))
      | .error text => answer session stack (.error (.raised text))
  | stack => ⟨session, .run (.finish verdict), stack⟩

/-- Goes on after a command. -/
def takeOutcome (outcome : Outcome) : List Frame → Moment
  | .asking verb next :: stack =>
      match outcome with
      | .ok value => ⟨session.record (.did verb value), .run (next outcome), stack⟩
      | .error _ => ⟨session, .run (next outcome), stack⟩
  | .draining received delivered :: stack =>
      match outcome with
      | .ok _ => ⟨session, .drain received (delivered + 1), stack⟩
      | .error failure => answer session stack (.error failure)
  | stack => answer session stack outcome

/-- The moment after this one. A program that nobody waits for stays at its verdict. -/
def next (moment : Moment) : Moment :=
  match moment.task with
  | .run (.perform command next) =>
      ⟨moment.session, .ask command, .asking command.verb next :: moment.stack⟩
  | .run (.finish verdict) => takeVerdict moment.session verdict moment.stack
  | .ask command => ask moment.session moment.stack command
  | .hear id notice => hear moment.session moment.stack id notice
  | .publish channel notice waiting handled =>
      publish moment.session moment.stack channel notice handled waiting
  | .deliver id => deliver moment.session moment.stack id
  | .drain received delivered => drain moment.session moment.stack received delivered
  | .settle => settle moment.session moment.stack
  | .answer outcome => takeOutcome moment.session outcome moment.stack

theorem stack_hear (id : MemberId) (notice : Notice) :
    (hear session stack id notice).stack = stack := by
  unfold hear
  split
  · rfl
  · split
    · rfl
    · split
      · rfl
      · rfl

/-- The moment that comes so many moments later. -/
def after (moment : Moment) : (count : Nat) → Moment
  | 0 => moment
  | count + 1 => (moment.after count).next

theorem after_next (moment : Moment) (count : Nat) :
    moment.next.after count = moment.after (count + 1) := by
  induction count with
  | zero => rfl
  | succ count ih => exact congrArg next ih

theorem after_add (moment : Moment) (first second : Nat) :
    moment.after (first + second) = (moment.after first).after second := by
  induction second with
  | zero => rfl
  | succ second ih => exact congrArg next ih

/-- One moment comes after another one, sooner or later. -/
def Leads (moment later : Moment) : Prop := ∃ count, moment.after count = later

namespace Leads

variable {moment middle later : Moment}

theorem refl (moment : Moment) : moment.Leads moment := ⟨0, rfl⟩

theorem of_next (hlater : moment.next.Leads later) : moment.Leads later := by
  obtain ⟨count, rfl⟩ := hlater
  exact ⟨count + 1, (moment.after_next count).symm⟩

theorem trans (hmiddle : moment.Leads middle) (hlater : middle.Leads later) : moment.Leads later := by
  obtain ⟨first, rfl⟩ := hmiddle
  obtain ⟨second, rfl⟩ := hlater
  exact ⟨first + second, moment.after_add first second⟩

end Leads

end Moment

namespace Session

/-- Whatever a run finishes with, moments lead there. -/
def Traces {α : Type} (session : Session) (run : Run α) (start : Moment) (stop : α → Session → Moment) :
    Prop :=
  ∀ value next, run session = some (value, next) → start.Leads (stop value next)

namespace Traces

variable {α β : Type} {session next : Session} {run : Run α} {rest : α → Run β} {start : Moment}
  {middle : α → Session → Moment} {stop : β → Session → Moment}

theorem of_failure : session.Traces (failure : Run β) start stop := by
  intro value next hrun
  cases hrun

theorem of_next (hrun : session.Traces run start.next middle) : session.Traces run start middle :=
  fun value next hvalue => (hrun value next hvalue).of_next

theorem pure {value : β} (hstop : start.Leads (stop value session)) :
    session.Traces (pure value : Run β) start stop := by
  intro result next hrun
  cases hrun
  exact hstop

theorem bind (hrun : session.Traces run start middle)
    (hrest : ∀ value (next : Session), next.Traces (rest value) (middle value next) stop) :
    session.Traces (run >>= rest) start stop := by
  intro result final hbind
  change (run session).bind (fun pair => rest pair.1 pair.2) = some (result, final) at hbind
  obtain ⟨⟨value, next⟩, hvalue, hresult⟩ := Option.bind_eq_some_iff.1 hbind
  exact (hrun value next hvalue).trans (hrest value next result final hresult)

theorem get {rest : Session → Run β} (hrest : session.Traces (rest session) start stop) :
    session.Traces (get >>= rest) start stop :=
  hrest

theorem set {rest : Unit → Run β} (hrest : next.Traces (rest ()) start stop) :
    session.Traces (set next >>= rest) start stop :=
  hrest

theorem modify {change : Session → Session} {rest : Unit → Run β}
    (hrest : (change session).Traces (rest ()) start stop) :
    session.Traces (modify change >>= rest) start stop :=
  hrest

end Traces

/-- Moments lead from a command that is asked for to its answer. -/
def Traced (exec : Command → Run Outcome) : Prop :=
  ∀ command (session : Session) stack,
    session.Traces (exec command) ⟨session, .ask command, stack⟩ fun outcome next =>
      ⟨next, .answer outcome, stack⟩

variable {exec : Command → Run Outcome}

theorem program_traces (hexec : Traced exec) (program : Program) (session : Session)
    (stack : List Frame) :
    session.Traces (program.run exec) ⟨session, .run program, stack⟩ fun verdict next =>
      ⟨next, .run (.finish verdict), stack⟩ := by
  -- Only programs are recursed into: what a command gives rise to is left to `exec`.
  induction program using Program.rec
    (motive_1 := fun _ => True) (motive_3 := fun _ => True) generalizing session with
  | finish verdict => exact .pure (.refl _)
  | perform command next _ ih =>
      simp only [Program.run]
      refine .of_next (.bind (hexec command session (.asking command.verb next :: stack)) ?_)
      intro outcome later
      refine .of_next ?_
      cases outcome with
      | error failure => exact ih _ later
      | ok value => exact .modify (ih _ _)
  | _ => trivial

theorem call_traces (hexec : Traced exec) (id : MemberId) (notice : Notice) (subscriber : Subscriber)
    (session : Session) (stack : List Frame) :
    session.Traces (call exec id notice subscriber) (Moment.call session stack id notice subscriber)
      fun verdict next => ⟨next, .run (.finish verdict), stack⟩ :=
  .get (.set (program_traces hexec _ _ stack))

theorem callAll_traces (hexec : Traced exec) (channel : Channel) (notice : Notice)
    (waiting : List (Nat × Subscriber)) (handled : Bool) (session : Session) (stack : List Frame) :
    session.Traces (callAll exec channel notice waiting)
      ⟨session, .publish channel notice waiting handled, stack⟩ fun more next =>
        ⟨next, .publish channel notice [] (handled || more), stack⟩ := by
  induction waiting generalizing handled session with
  | nil =>
      refine .pure ?_
      rw [Bool.or_false]
      exact .refl _
  | cons entry waiting ih =>
      obtain ⟨key, subscriber⟩ := entry
      simp only [callAll]
      refine .get (.of_next ?_)
      simp only [Moment.next, Moment.publish]
      split
      · refine .bind (call_traces hexec channel.owner notice subscriber session _) ?_
        intro verdict next
        refine .of_next ?_
        cases verdict with
        | ok accepted =>
            refine .bind (ih (handled || accepted) next) fun others later => .pure ?_
            rw [Bool.or_assoc]
            exact .refl _
        | error text => exact .modify (ih handled _)
      · exact ih handled session

theorem publish_traces (hexec : Traced exec) {channel : Channel} {notice : Notice}
    (hpublishes : channel.publishes notice = true) (session : Session) (stack : List Frame) :
    session.Traces (publish exec channel notice)
      ⟨session.beginPublishing channel.owner,
        .publish channel notice channel.subscriptions.active false, stack⟩ fun outcome next =>
        ⟨next, .answer outcome, stack⟩ := by
  rw [publish, if_pos hpublishes]
  refine .modify (.bind (callAll_traces hexec _ _ _ _ _ _) fun handled later => .of_next (.modify ?_))
  rw [Bool.false_or]
  exact .pure (.refl _)

theorem notify_traces (hexec : Traced exec) (id : MemberId) (notice : Notice) (session : Session)
    (stack : List Frame) :
    session.Traces (notify exec id notice) ⟨session, .hear id notice, stack⟩ fun outcome next =>
      ⟨next, .answer outcome, stack⟩ := by
  refine .get (.of_next ?_)
  cases hchannel : session.channel? id with
  | none =>
      simp only [Moment.next, Moment.hear, hchannel]
      exact .pure (.refl _)
  | some channel =>
      cases hnotify : session.server.notify id channel notice with
      | error failure =>
          simp only [Moment.next, Moment.hear, hchannel, hnotify]
          exact .pure (.refl _)
      | ok heard =>
          obtain ⟨server, next, line⟩ := heard
          simp only [Moment.next, Moment.hear, hchannel, hnotify]
          refine .set ?_
          split
          · rename_i hpublishes
            exact publish_traces hexec hpublishes _ stack
          · rename_i hpublishes
            rw [publish, if_neg hpublishes]
            exact .pure (.refl _)

theorem carry_traces (hexec : Traced exec) (program : Program) (session : Session) (stack : List Frame) :
    session.Traces
      (do
        match ← program.run exec with
        | .ok _ => return .ok (.flag true)
        | .error text => return .error (.raised text))
      ⟨session, .run program, .carrying :: stack⟩ fun outcome next => ⟨next, .answer outcome, stack⟩ := by
  refine .bind (program_traces hexec program session (.carrying :: stack)) fun verdict next => ?_
  refine .of_next ?_
  cases verdict with
  | ok accepted => exact .pure (.refl _)
  | error text => exact .pure (.refl _)

theorem send_traces (hexec : Traced exec) (id : MemberId) (action : Action) (session : Session)
    (stack : List Frame) :
    session.Traces (send exec id action) (Moment.send session stack id action) fun outcome next =>
      ⟨next, .answer outcome, stack⟩ := by
  refine .get ?_
  cases hchannel : session.channel? id with
  | none =>
      simp only [Moment.send, hchannel]
      exact .pure (.refl _)
  | some channel =>
      cases hrefusal : channel.refusal? action with
      | some line =>
          simp only [Moment.send, hchannel, hrefusal]
          exact .set (.pure (.refl _))
      | none =>
          simp only [Moment.send, hchannel, hrefusal]
          cases channel.transport with
          | absent => exact .pure (.refl _)
          | uplink => exact .set (.pure (.refl _))
          | outlet label carry =>
              cases label with
              | none => exact carry_traces hexec (carry action) session stack
              | some label => exact .set (carry_traces hexec (carry action) _ stack)

theorem deliverTo_traces (hexec : Traced exec) (id : MemberId) (session : Session) (stack : List Frame) :
    session.Traces (deliverTo exec id) ⟨session, .deliver id, stack⟩ fun outcome next =>
      ⟨next, .answer outcome, stack⟩ := by
  refine .get (.of_next ?_)
  cases htake : session.server.takeNotice id with
  | error error =>
      simp only [Moment.next, Moment.deliver, htake]
      exact .pure (.refl _)
  | ok taken =>
      simp only [Moment.next, Moment.deliver, htake]
      exact .set (notify_traces hexec id taken.1 _ stack)

theorem deliverAll_traces (hexec : Traced exec) (received : Option Nat) (limit delivered : Nat)
    (session : Session) (stack : List Frame) :
    session.Traces (deliverAll exec limit) ⟨session, .drain received delivered, stack⟩ fun result next =>
      Moment.drainOn next stack received delivered result := by
  induction limit generalizing delivered session with
  | zero => exact .of_failure
  | succ limit ih =>
      simp only [deliverAll]
      refine .get (.of_next ?_)
      cases htarget : session.server.target? with
      | none =>
          simp only [Moment.next, Moment.drain, htarget]
          exact .pure (.refl _)
      | some id =>
          simp only [Moment.next, Moment.drain, htarget]
          refine .bind (deliverTo_traces hexec id session _) fun outcome next => .of_next ?_
          cases outcome with
          | error failure => exact .pure (.refl _)
          | ok value =>
              refine .bind (ih (delivered + 1) next) fun result later => .pure ?_
              cases result with
              | error failure => exact .refl _
              | ok more =>
                  have hcount : delivered + 1 + more = delivered + (more + 1) := by omega
                  rw [Moment.drainOn, hcount]
                  exact .refl _

theorem settleAll_traces (hexec : Traced exec) (limit : Nat) (session : Session) (stack : List Frame) :
    session.Traces (settleAll exec limit) ⟨session, .settle, stack⟩ fun outcome next =>
      ⟨next, .answer outcome, stack⟩ := by
  induction limit generalizing session with
  | zero => exact .of_failure
  | succ limit ih =>
      simp only [settleAll]
      have hserve : session.Traces (serve Server.receiveAll) (Moment.settle session stack)
          fun result next => Moment.settleOn next stack result := by
        intro result next hserve
        rw [Moment.settle, hserve]
        exact .refl _
      refine .of_next (.bind hserve fun result next => ?_)
      cases result with
      | error failure => exact .pure (.refl _)
      | ok received =>
          refine .bind (deliverAll_traces hexec (some received) limit 0 next stack) ?_
          intro delivered later
          cases delivered with
          | error failure => exact .pure (.refl _)
          | ok delivered =>
              simp only [Moment.drainOn, Moment.drained, Nat.zero_add]
              split
              · exact .pure (.refl _)
              · exact ih later

/-- A command that calls nobody is carried out in a single step. -/
theorem immediate_traces {command : Command} {run : Run Outcome} (session : Session) (stack : List Frame)
    (hnext : (⟨session, .ask command, stack⟩ : Moment).next =
      match run session with
      | none => ⟨session, .ask command, stack⟩
      | some (outcome, next) => .answer next stack outcome) :
    session.Traces run ⟨session, .ask command, stack⟩ fun outcome next =>
      ⟨next, .answer outcome, stack⟩ := by
  intro outcome next hrun
  refine .of_next ?_
  rw [hnext, hrun]
  exact .refl _

theorem step_traced (hexec : Traced exec) (limit : Nat) : Traced (step exec limit) := by
  intro command session stack
  cases command with
  | send id action =>
      cases action with
      | error error => exact immediate_traces session stack rfl
      | ok action => exact .of_next (.modify (send_traces hexec id action _ stack))
  | notify id notice =>
      cases notice with
      | error error => exact immediate_traces session stack rfl
      | ok notice => exact .of_next (.modify (notify_traces hexec id notice _ stack))
  | deliver id =>
      cases id with
      | some id => exact .of_next (deliverTo_traces hexec id session stack)
      | none =>
          refine .get (.of_next ?_)
          cases htarget : session.server.target? with
          | none =>
              simp only [Moment.next, Moment.ask, htarget]
              exact .pure (.refl _)
          | some id =>
              simp only [Moment.next, Moment.ask, htarget]
              exact deliverTo_traces hexec id session stack
  | deliverAll =>
      refine .of_next (.bind (deliverAll_traces hexec none limit 0 session stack) ?_)
      intro delivered next
      cases delivered with
      | error failure => exact .pure (.refl _)
      | ok delivered =>
          refine .pure ?_
          rw [Moment.drainOn, Nat.zero_add]
          exact .refl _
  | run => exact .of_next (settleAll_traces hexec limit session stack)
  | _ => exact immediate_traces session stack rfl

theorem exec_traced (limit : Nat) : Traced (Session.exec limit) := by
  induction limit with
  | zero => exact fun command session stack => .of_failure
  | succ limit ih => exact step_traced ih limit

/-- Whatever a program comes to within some limit, it comes to step by step. -/
theorem leads_to_verdict {limit : Nat} {program : Program} {session final : Session}
    {verdict : Except Bytes Bool} (stack : List Frame)
    (hrun : program.run (Session.exec limit) session = some (verdict, final)) :
    (⟨session, .run program, stack⟩ : Moment).Leads ⟨final, .run (.finish verdict), stack⟩ :=
  program_traces (exec_traced limit) program session stack verdict final hrun

end Session

end GroupChat
