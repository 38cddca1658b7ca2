import GroupChat.Proofs.Consistency
import GroupChat.Session.Exec

/-!
# Sessions on a server

Commands are carried out by moves of the server, and so is all that subscribers ask for while they
are called. A session in which channels hear from nobody but the server is therefore a run, and no
notice ever finds a channel in a state that does not allow it.
-/

namespace GroupChat

mutual

/-- Whether a command leaves it to the server to tell channels anything, and has subscribers that do
the same. -/
def Command.ThroughServer : Command → Prop
  | .notify _ _ | .install _ _ | .drop _ => False
  | .subscribe _ _ respond =>
      ∀ earlier notice standing, (respond earlier notice standing).ThroughServer
  | _ => True

def Program.ThroughServer : Program → Prop
  | .finish _ => True
  | .perform command next => command.ThroughServer ∧ ∀ outcome, (next outcome).ThroughServer

end

def Subscriber.ThroughServer (subscriber : Subscriber) : Prop :=
  ∀ earlier notice standing, (subscriber.respond earlier notice standing).ThroughServer

namespace Server

def Move.ThroughServer : Move → Prop
  | .subscribe _ subscriber => subscriber.ThroughServer
  | _ => True

/-- All subscribers leave it to the server to tell channels anything. -/
def Loyal (server : Server) : Prop :=
  ∀ id, ∀ entry ∈ (server.mailbox id).channel.subscriptions.active, entry.2.ThroughServer

variable {server : Server}

theorem Loyal.step (hloyal : server.Loyal) {move : Move} (hmove : move.ThroughServer) :
    (server.step move).1.Loyal := by
  intro id entry hentry
  rcases mem_active_step hentry with hearlier | rfl
  · exact hloyal id entry hearlier
  · exact hmove

theorem receive_zero (hincoming : server.incoming.isEmpty = false) :
    ∃ lines, server.receive 0 = .ok ((server.step (.receive 0)).1, lines) ∧
      (server.step (.receive 0)).1.incoming = server.incoming.tail := by
  rcases server.receive_cases 0 with ⟨error, herror⟩ | ⟨packet, entries, lines, -, hok, -⟩
  · unfold receive at herror
    cases hpackets : server.incoming with
    | nil => simp [hpackets] at hincoming
    | cons packet rest =>
        obtain ⟨entries, lines, hok, -⟩ := settle_eq_ok { server with incoming := rest } packet
        simp [hpackets, hok] at herror
  · refine ⟨lines, ?_, ?_⟩
    · simp only [step, hok]
    · simp only [step, hok, incoming_postAll, List.eraseIdx_zero]

/-- Processing from the front never fails, so this is as many single moves as there are packets. -/
theorem receiveAll_eq_ok (server : Server) :
    ∃ lines, server.receiveAll =
      .ok (server.incoming.length,
        server.run (List.replicate server.incoming.length (.receive 0)), lines) ∧
      (server.run (List.replicate server.incoming.length (.receive 0))).incoming = [] := by
  unfold receiveAll
  generalize hlimit : server.incoming.length = limit
  induction limit generalizing server with
  | zero => exact ⟨[], rfl, List.length_eq_zero_iff.1 hlimit⟩
  | succ limit ih =>
      have hincoming : server.incoming.isEmpty = false := by
        rw [List.isEmpty_eq_false_iff, ← List.length_pos_iff, hlimit]
        exact Nat.succ_pos limit
      obtain ⟨lines, hok, htail⟩ := receive_zero hincoming
      have hlength : (server.step (.receive 0)).1.incoming.length = limit := by
        rw [htail, List.length_tail, hlimit, Nat.add_sub_cancel]
      obtain ⟨more, hrest, hempty⟩ := ih (server.step (.receive 0)).1 hlength
      refine ⟨lines ++ more, ?_, hempty⟩
      unfold receiveUpTo
      rw [if_neg (Bool.eq_false_iff.1 hincoming), hok]
      simp only [bind, Except.bind, hrest]
      rfl

end Server

namespace Session

/-- A session in which channels are told by the server what leads them to the membership. -/
structure Sound (session : Session) : Prop where
  consistent : session.server.Consistent
  loyal : session.server.Loyal

/-- One session becomes another one through moves of its server. -/
def Leads (session next : Session) : Prop :=
  ∃ moves : List Server.Move, (∀ move ∈ moves, move.ThroughServer) ∧
    next.server = session.server.run moves

/-- A result that does not tell of a notice that a channel refused. -/
def Accepted {α : Type} (result : Except Failure α) : Prop :=
  ∀ error, result ≠ .error (.state error)

/-- Whatever a run finishes with is reached through moves and meets the condition. -/
def Serves {α : Type} (session : Session) (run : Run α) (condition : α → Prop) : Prop :=
  session.Sound → ∀ value next, run session = some (value, next) →
    session.Leads next ∧ condition value

variable {session next final : Session}

theorem Leads.of_server_eq (hserver : next.server = session.server) : session.Leads next :=
  ⟨[], by simp, hserver⟩

theorem Leads.of_step {move : Server.Move} (hmove : move.ThroughServer)
    (hserver : next.server = (session.server.step move).1) : session.Leads next :=
  ⟨[move], by simpa using hmove, hserver⟩

theorem Leads.trans (hfirst : session.Leads next) (hsecond : next.Leads final) :
    session.Leads final := by
  obtain ⟨first, hfirstMoves, hnext⟩ := hfirst
  obtain ⟨second, hsecondMoves, hfinal⟩ := hsecond
  refine ⟨first ++ second, ?_, ?_⟩
  · intro move hmove
    rcases List.mem_append.1 hmove with hmove | hmove
    · exact hfirstMoves move hmove
    · exact hsecondMoves move hmove
  · rw [hfinal, hnext, Server.run_append]

theorem Sound.of_leads (hsound : session.Sound) (hleads : session.Leads next) : next.Sound := by
  obtain ⟨moves, hmoves, hserver⟩ := hleads
  induction moves generalizing session with
  | nil => exact ⟨hserver ▸ hsound.consistent, hserver ▸ hsound.loyal⟩
  | cons move rest ih =>
      have hmove : move.ThroughServer := hmoves move List.mem_cons_self
      have hstep : ({ session with server := (session.server.step move).1 } : Session).Sound :=
        ⟨hsound.consistent.step move, hsound.loyal.step hmove⟩
      exact ih hstep (fun other hother => hmoves other (List.mem_cons_of_mem _ hother)) hserver

namespace Serves

variable {α β : Type} {condition : α → Prop} {condition' : β → Prop} {run : Run α}
  {rest : α → Run β}

theorem of_sound (hserves : session.Sound → session.Serves run condition) :
    session.Serves run condition :=
  fun hsound => hserves hsound hsound

theorem of_failure : session.Serves (failure : Run α) condition := by
  intro hsound value next hrun
  cases hrun

theorem pure {value : α} (hvalue : condition value) :
    session.Serves (pure value : Run α) condition := by
  intro hsound result next hrun
  cases hrun
  exact ⟨.of_server_eq rfl, hvalue⟩

theorem bind (hrun : session.Serves run condition)
    (hrest : ∀ value (next : Session), condition value → next.Serves (rest value) condition') :
    session.Serves (run >>= rest) condition' := by
  intro hsound result final hbind
  change (run session).bind (fun pair => rest pair.1 pair.2) = some (result, final) at hbind
  obtain ⟨⟨value, next⟩, hvalue, hresult⟩ := Option.bind_eq_some_iff.1 hbind
  obtain ⟨hleads, hcondition⟩ := hrun hsound value next hvalue
  obtain ⟨hlater, hfinal⟩ :=
    hrest value next hcondition (hsound.of_leads hleads) result final hresult
  exact ⟨hleads.trans hlater, hfinal⟩

theorem get {rest : Session → Run β} (hrest : session.Serves (rest session) condition') :
    session.Serves (get >>= rest) condition' :=
  hrest

theorem set {rest : Unit → Run β} (hleads : session.Leads next)
    (hrest : next.Serves (rest ()) condition') :
    session.Serves (set next >>= rest) condition' := by
  intro hsound result final hrun
  obtain ⟨hlater, hfinal⟩ := hrest (hsound.of_leads hleads) result final hrun
  exact ⟨hleads.trans hlater, hfinal⟩

theorem modify {change : Session → Session} {rest : Unit → Run β}
    (hleads : session.Leads (change session))
    (hrest : (change session).Serves (rest ()) condition') :
    session.Serves (modify change >>= rest) condition' :=
  set hleads hrest

end Serves

/-- Carrying out commands only moves the server, and never has a channel refuse a notice. -/
def Faithful (exec : Command → Run Outcome) : Prop :=
  ∀ command, command.ThroughServer → ∀ session : Session, session.Serves (exec command) Accepted

theorem accepted_ok {α : Type} (value : α) : Accepted (.ok value : Except Failure α) := nofun

theorem accepted_request {α : Type} (error : RequestError) :
    Accepted (.error (.request error) : Except Failure α) := by
  rintro other ⟨⟩

theorem Accepted.of_error {α β : Type} {failure : Failure}
    (haccepted : Accepted (.error failure : Except Failure α)) :
    Accepted (.error failure : Except Failure β) := by
  rintro error ⟨⟩
  exact haccepted error rfl

theorem Accepted.map {α β : Type} {result : Except Failure α} (haccepted : Accepted result)
    (change : α → β) : Accepted (result.map change) := by
  cases result with
  | ok value => exact accepted_ok _
  | error failure => exact haccepted.of_error

variable {exec : Command → Run Outcome}

theorem program_serves (hexec : Faithful exec) (program : Program)
    (hprogram : program.ThroughServer) (session : Session) :
    session.Serves (program.run exec) fun _ => True := by
  -- Only programs are recursed into: what a command gives rise to is left to `exec`.
  induction program using Program.rec
    (motive_1 := fun _ => True) (motive_3 := fun _ => True) generalizing session with
  | finish verdict => exact .pure trivial
  | perform command next _ ih =>
      simp only [Program.ThroughServer] at hprogram
      simp only [Program.run]
      refine .bind (hexec command hprogram.1 session) fun outcome next _ => ?_
      cases outcome with
      | error failure => exact ih _ (hprogram.2 _) next
      | ok value => exact .modify (.of_server_eq rfl) (ih _ (hprogram.2 _) _)
  | _ => trivial

theorem call_serves (hexec : Faithful exec) (id : MemberId) (notice : Notice)
    {subscriber : Subscriber} (hsubscriber : subscriber.ThroughServer) (session : Session) :
    session.Serves (call exec id notice subscriber) fun _ => True :=
  .get <| .set (.of_server_eq rfl) <| program_serves hexec _ (hsubscriber _ _ _) _

theorem callAll_serves (hexec : Faithful exec) (channel : Channel) (notice : Notice)
    {subscribers : List (Nat × Subscriber)}
    (hsubscribers : ∀ entry ∈ subscribers, entry.2.ThroughServer) (session : Session) :
    session.Serves (callAll exec channel notice subscribers) fun _ => True := by
  induction subscribers generalizing session with
  | nil => exact .pure trivial
  | cons entry rest ih =>
      have hentry : entry.2.ThroughServer := hsubscribers entry List.mem_cons_self
      have hrest := ih fun other hother => hsubscribers other (List.mem_cons_of_mem _ hother)
      simp only [callAll]
      refine .get ?_
      split
      · refine .bind (call_serves hexec _ _ hentry session) fun verdict next _ => ?_
        cases verdict with
        | ok handled => exact .bind (hrest next) fun _ _ _ => .pure trivial
        | error text => exact .modify (.of_server_eq rfl) (hrest _)
      · exact hrest session

theorem notify_eq (session : Session) {server : Server} {id : MemberId} {channel next : Channel}
    {notice : Notice} {line : Log.Line} (hchannel : session.server.channel? id = some channel)
    (hnotify : session.server.notify id channel notice = .ok (server, next, line)) :
    notify exec id notice session =
      publish exec next notice ({ session with server }.log [line]) := by
  unfold notify
  simp only [bind, StateT.bind, get, getThe, MonadStateOf.get, StateT.get, pure, Option.bind_some,
    Session.channel?, hchannel, hnotify]
  rfl

theorem publish_serves (hexec : Faithful exec) (channel : Channel) (notice : Notice)
    (hsubscribers : ∀ entry ∈ channel.subscriptions.active, entry.2.ThroughServer)
    (session : Session) : session.Serves (publish exec channel notice) Accepted := by
  unfold publish
  split
  · refine .modify (.of_server_eq rfl) ?_
    refine .bind (callAll_serves hexec channel notice hsubscribers _) fun handled next _ => ?_
    exact .modify (.of_server_eq rfl) (.pure (accepted_ok _))
  · exact .pure (accepted_ok _)

/-- Delivering is a single move of the server, after which the subscribers are called. -/
theorem deliverTo_serves (hexec : Faithful exec) (id : MemberId) (session : Session) :
    session.Serves (deliverTo exec id) Accepted := by
  refine .of_sound fun hsound => .get ?_
  split
  · exact .pure (accepted_request _)
  · rename_i notice taken htake
    obtain ⟨line, hchannel, hnotify⟩ := hsound.consistent.notify_eq_ok htake
    have hmove : (Server.Move.deliver id).ThroughServer := trivial
    -- With the notice taken but not yet handed over the session is not sound, so that both have to be
    -- one move here.
    intro _ value final hrun
    change notify exec id notice { session with server := taken } = some (value, final) at hrun
    rw [notify_eq { session with server := taken } hchannel hnotify] at hrun
    generalize hlater : Session.log _ [line] = later at hrun
    have hleads : session.Leads later := .of_step hmove (by rw [← hlater]; rfl)
    have hsubscribers := (hsound.of_leads hleads).loyal id
    rw [← hlater] at hsubscribers
    obtain ⟨hrest, haccepted⟩ := publish_serves hexec _ notice hsubscribers later
      (hsound.of_leads hleads) value final hrun
    exact ⟨hleads.trans hrest, haccepted⟩

/-- A channel hands what it is asked to send to the server, if to anybody. -/
theorem send_serves (id : MemberId) (action : Action) (session : Session) :
    session.Serves (send exec id action) Accepted := by
  refine .of_sound fun hsound => .get ?_
  split
  · exact .pure (accepted_ok _)
  · rename_i channel hchannel
    have hmailbox : (session.server.mailbox id).channel = channel := Server.channel_mailbox _ _ hchannel
    have htransport : channel.transport = .uplink := hmailbox ▸ (hsound.consistent.wired id).2
    split
    · exact .set (.of_server_eq rfl) (.pure (accepted_ok _))
    · rename_i hrefusal
      simp only [htransport]
      have huplinks : (session.server.mailbox id).channel.uplinks action = true := by
        simp [Channel.uplinks, hmailbox, htransport, hrefusal]
      have hmove : (Server.Move.send id action).ThroughServer := trivial
      refine .set (.of_step hmove ?_) (.pure (accepted_ok _))
      simp only [Server.step, huplinks, if_true, Server.openMailbox_of_channel? _ _ hchannel]

theorem serve_serves {α : Type} {step : Server → Except Failure (α × Server × List Log.Line)}
    (hstep : (∃ error, step session.server = .error (.request error)) ∨
      ∃ value server lines, step session.server = .ok (value, server, lines) ∧
        session.Leads { session with server }) :
    session.Serves (serve step) Accepted := by
  refine .get ?_
  rcases hstep with ⟨error, herror⟩ | ⟨value, server, lines, hok, hleads⟩
  · rw [herror]
    exact .pure (accepted_request _)
  · rw [hok]
    exact .set hleads (.pure (accepted_ok _))

theorem receive_serves (index : Nat) (session : Session) :
    session.Serves
      (serve fun server => (server.receive index).map fun result => ((), result)) Accepted := by
  refine serve_serves ?_
  rcases session.server.receive_cases index with
    ⟨error, herror⟩ | ⟨packet, entries, lines, hpacket, hok, -⟩
  · exact Or.inl ⟨error, by simp only [herror]; rfl⟩
  · have hmove : (Server.Move.receive index).ThroughServer := trivial
    refine Or.inr ⟨(), (session.server.step (.receive index)).1, lines, ?_, .of_step hmove rfl⟩
    simp only [Server.step, hok]
    rfl

theorem receiveAll_serves (session : Session) :
    session.Serves (serve Server.receiveAll) Accepted := by
  refine serve_serves (Or.inr ?_)
  obtain ⟨lines, hok, -⟩ := session.server.receiveAll_eq_ok
  refine ⟨_, _, lines, hok, List.replicate session.server.incoming.length (.receive 0), ?_, rfl⟩
  intro move hmove
  rw [List.eq_of_mem_replicate hmove]
  trivial

theorem deliverAll_serves (hexec : Faithful exec) (limit : Nat) (session : Session) :
    session.Serves (deliverAll exec limit) Accepted := by
  induction limit generalizing session with
  | zero => exact .of_failure
  | succ limit ih =>
      simp only [deliverAll]
      refine .get ?_
      split
      · exact .pure (accepted_ok _)
      · rename_i id _
        refine .bind (deliverTo_serves hexec id session) fun outcome next houtcome => ?_
        cases outcome with
        | error failure => exact .pure houtcome.of_error
        | ok value => exact .bind (ih next) fun _ _ haccepted => .pure (haccepted.map _)

theorem settleAll_serves (hexec : Faithful exec) (limit : Nat) (session : Session) :
    session.Serves (settleAll exec limit) Accepted := by
  induction limit generalizing session with
  | zero => exact .of_failure
  | succ limit ih =>
      simp only [settleAll]
      refine .bind (receiveAll_serves session) fun received next hreceived => ?_
      cases received with
      | error failure => exact .pure hreceived.of_error
      | ok received =>
          refine .bind (deliverAll_serves hexec limit next) fun delivered later hdelivered => ?_
          cases delivered with
          | error failure => exact .pure hdelivered.of_error
          | ok delivered =>
              dsimp only
              split
              · exact .pure (accepted_ok _)
              · exact ih later

theorem server_subscribe (session : Session) (id : MemberId) (subscriber : Subscriber) :
    ((session.openChannel id).subscribe id subscriber).server =
      (session.server.step (.subscribe id subscriber)).1 := by
  have hchannel : (session.openChannel id).channel? id =
      some (session.server.mailbox id).channel := session.server.channel?_openMailbox id
  simp only [subscribe, hchannel]
  rfl

theorem leads_cancel (session : Session) (name : MemberId) :
    session.Leads (session.cancel name).2 := by
  unfold cancel
  split
  · exact .of_server_eq rfl
  · rename_i id key _
    have hmove : (Server.Move.cancel id key).ThroughServer := trivial
    unfold unsubscribe
    split
    · exact .of_step hmove rfl
    · exact .of_server_eq rfl

theorem step_serves (hexec : Faithful exec) (limit : Nat) : Faithful (step exec limit) := by
  intro command hcommand session
  cases command with
  | openChannel id =>
      have hmove : (Server.Move.openChannel id).ThroughServer := trivial
      exact .modify (.of_step hmove rfl) (.pure (accepted_ok _))
  | send id action =>
      have hmove : (Server.Move.openChannel id).ThroughServer := trivial
      refine .modify (.of_step hmove rfl) ?_
      cases action with
      | error error => exact .pure (by rintro other ⟨⟩)
      | ok action => exact send_serves id action _
  | subscribe id name respond =>
      simp only [Command.ThroughServer] at hcommand
      have hmove : (Server.Move.subscribe id ⟨name, respond⟩).ThroughServer := hcommand
      exact .modify (.of_step hmove (server_subscribe session id _)) (.pure (accepted_ok _))
  | cancel name => exact .get (.set (leads_cancel session name) (.pure (accepted_ok _)))
  | setLevel level => exact .modify (.of_server_eq rfl) (.pure (accepted_ok _))
  | receive index =>
      exact .bind (receive_serves index session) fun _ _ haccepted => .pure (haccepted.map _)
  | receiveAll =>
      exact .bind (receiveAll_serves session) fun _ _ haccepted => .pure (haccepted.map _)
  | deliver id =>
      cases id with
      | some id => exact deliverTo_serves hexec id session
      | none =>
          refine .get ?_
          split
          · exact .pure (accepted_request _)
          · exact deliverTo_serves hexec _ session
  | deliverAll =>
      exact .bind (deliverAll_serves hexec limit session) fun _ _ haccepted => .pure (haccepted.map _)
  | run => exact settleAll_serves hexec limit session
  | target => exact .get (.pure (accepted_ok _))
  | queued id => exact .get (.pure (accepted_ok _))
  | notify id notice => simp [Command.ThroughServer] at hcommand
  | install id transport => simp [Command.ThroughServer] at hcommand
  | drop id => simp [Command.ThroughServer] at hcommand

theorem exec_serves (limit : Nat) : Faithful (Session.exec limit) := by
  induction limit with
  | zero => exact fun command hcommand session => .of_failure
  | succ limit ih => exact step_serves ih limit

/-- What a session can become in which every command, from outside or by a subscriber, leaves it to
the server to tell channels anything. -/
inductive Reached : Session → Prop
  | start (logger : Log.Logger) : Reached (onServer logger)
  | perform {session next : Session} {command : Command} {limit : Nat} {outcome : Outcome}
      {events : List Event} (hreached : Reached session) (hcommand : command.ThroughServer)
      (hperform : perform limit command session = some (outcome, events, next)) : Reached next

theorem leads_perform {command : Command} {limit : Nat} {outcome : Outcome} {events : List Event}
    (hsound : session.Sound) (hcommand : command.ThroughServer)
    (hperform : perform limit command session = some (outcome, events, next)) :
    session.Leads next ∧ Accepted outcome := by
  unfold perform at hperform
  split at hperform
  · cases hperform
  · rename_i result final hexec
    cases hperform
    have hstart : ({ session with events := [] } : Session).Sound :=
      ⟨hsound.consistent, hsound.loyal⟩
    obtain ⟨⟨moves, hmoves, hserver⟩, haccepted⟩ :=
      exec_serves limit command hcommand _ hstart _ _ hexec
    exact ⟨⟨moves, hmoves, hserver⟩, haccepted⟩

theorem sound_onServer (logger : Log.Logger) : (onServer logger).Sound :=
  ⟨Server.consistent_empty, fun id entry hentry => by cases hentry⟩

theorem Reached.leads (hreached : Reached session) :
    ∃ logger, (onServer logger).Leads session := by
  induction hreached with
  | start logger => exact ⟨logger, .of_server_eq rfl⟩
  | perform hreached hcommand hperform ih =>
      obtain ⟨logger, hleads⟩ := ih
      have hsound := (sound_onServer logger).of_leads hleads
      exact ⟨logger, hleads.trans (leads_perform hsound hcommand hperform).1⟩

theorem Reached.sound (hreached : Reached session) : session.Sound := by
  obtain ⟨logger, hleads⟩ := hreached.leads
  exact (sound_onServer logger).of_leads hleads

/-- **Consistency.** In every state of every run, what waits for a member leads exactly from what its
channel sees to the membership, or to being outside, and the channel takes the next notice. Sessions
with all their nested commands are such runs, and none of their commands ends with a notice refused. -/
theorem queues_lead_to_membership :
    (∀ moves id,
      Standing.after id ((Server.run {} moves).queue id) ((Server.run {} moves).standing id) =
        .ok ((Server.run {} moves).members.seenBy id)) ∧
      (∀ moves id notice taken,
        (Server.run {} moves).takeNotice id = .ok (notice, taken) →
        ∃ channel next final line, taken.channel? id = some channel ∧
          taken.notify id channel notice = .ok (final, next, line)) ∧
      ∀ session, Reached session →
        (∃ moves, session.server = Server.run {} moves) ∧
          ∀ limit command outcome events next, command.ThroughServer →
            perform limit command session = some (outcome, events, next) →
            ∀ error, outcome ≠ .error (.state error) := by
  have hconsistent : ∀ moves, (Server.run {} moves).Consistent := Server.consistent_empty.run
  refine ⟨fun moves => (hconsistent moves).settled, ?_, ?_⟩
  · intro moves id notice taken htake
    obtain ⟨line, hchannel, hnotify⟩ := (hconsistent moves).notify_eq_ok htake
    exact ⟨_, _, _, line, hchannel, hnotify⟩
  · intro session hreached
    obtain ⟨logger, hleads⟩ := hreached.leads
    constructor
    · obtain ⟨moves, -, hserver⟩ := hleads
      exact ⟨moves, hserver⟩
    · intro limit command outcome events next hcommand hperform
      have hsound := (sound_onServer logger).of_leads hleads
      exact (leads_perform hsound hcommand hperform).2

end Session

end GroupChat
