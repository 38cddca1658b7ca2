import GroupChat.Proofs.ChannelRuns
import GroupChat.Proofs.Handing

/-!
# Sends

A send that does not suit the channel is answered at once. Any other is handed to the transport that is
installed at that moment, and comes back when the transport does. Main statement: what sends come back with,
what the transports are handed in the course of a session, and that sends alone leave every channel as it is.
-/

namespace GroupChat

namespace Session

/-- A transport is called with an action that a channel is asked to send, and its call comes to an end. The
server takes the action as a packet. Any other transport does what it makes of the action. -/
inductive Carries (session : Session) (id : MemberId) (action : Action) :
    Transport → Except Bytes Bool → Session → Prop
  | uplink :
      session.Carries id action .uplink (.ok true) { session.openChannel id with
        server := (session.openChannel id).server.submit ⟨id, action⟩ }
  | outlet {label : Option Bytes} {carry : Action → Program} {verdict : Except Bytes Bool} {final : Session}
      (hleads : Moment.Leads ⟨(session.openChannel id).handOver label action, .run (carry action), []⟩
        ⟨final, .run (.finish verdict), []⟩) :
      session.Carries id action (.outlet label carry) verdict final

variable {session : Session} {id : MemberId} {action : Action}

theorem retains_handOver (session : Session) (label : Option Bytes) (action : Action) :
    session.Retains (session.handOver label action) := by
  cases label with
  | none => exact .refl session
  | some label => exact .record session _

end Session

/-- A transport that asks for nothing when it is called. -/
def Transport.Quiet : Transport → Prop
  | .outlet _ carry => ∀ action, ∃ verdict, carry action = .finish verdict
  | _ => True

theorem Session.exists_carries_of_quiet {session : Session} {transport : Transport} (id : MemberId)
    (action : Action) (hinstalled : transport ≠ .absent) (hquiet : transport.Quiet) :
    ∃ verdict final, session.Carries id action transport verdict final ∧ session.Retains final := by
  cases transport with
  | absent => exact absurd rfl hinstalled
  | uplink =>
      refine ⟨.ok true, _, .uplink, (retains_openChannel session id).trans (.of_server ?_)⟩
      exact ⟨fun _ => rfl, fun _ hsome => hsome⟩
  | outlet label carry =>
      obtain ⟨verdict, hverdict⟩ := hquiet action
      refine ⟨verdict, _, .outlet ?_, (retains_openChannel session id).trans (retains_handOver _ label action)⟩
      rw [hverdict]
      exact .refl _

namespace Moment

variable {moment : Moment} {count later : Nat} {id : MemberId} {action : Action} {outcome : Outcome}
  {final : Session}

section Send

variable (htask : (moment.after count).task = .ask (.send id (.ok action)))

include htask

theorem returns_iff_of_not_takes (htakes : ¬((moment.after count).session.server.addressed id).Takes action) :
    (∃ later, moment.Returns count later outcome) ↔ outcome = .ok (.flag false) := by
  obtain ⟨line, hnext⟩ := next_of_not_takes htask htakes
  have hreturns := returns_of_next hnext
  constructor
  · rintro ⟨later, hother⟩
    exact (hother.unique hreturns).2
  · rintro rfl
    exact ⟨count + 1, hreturns⟩

theorem returns_iff_of_takes (htakes : ((moment.after count).session.server.addressed id).Takes action) :
    (∃ later, moment.Returns count later outcome ∧ (moment.after later).session = final) ↔
      ∃ verdict, (moment.after count).session.Carries id action
        ((moment.after count).session.server.addressed id).transport verdict final ∧
          outcome = carried verdict := by
  cases htransport : ((moment.after count).session.server.addressed id).transport with
  | absent => exact absurd htransport htakes.1
  | uplink =>
      have hnext := next_of_uplink htask htakes htransport
      have hreturns := returns_of_next hnext
      have hsession := congrArg Moment.session hnext
      constructor
      · rintro ⟨later, hother, rfl⟩
        obtain ⟨rfl, rfl⟩ := hother.unique hreturns
        exact ⟨.ok true, by rw [after, hsession]; exact .uplink, rfl⟩
      · rintro ⟨verdict, ⟨⟩, rfl⟩
        exact ⟨count + 1, hreturns, hsession⟩
  | outlet label carry =>
      rw [returns_iff_of_carrying (next_of_outlet htask htakes htransport)]
      constructor
      · rintro ⟨verdict, hleads, hcarried⟩
        exact ⟨verdict, .outlet hleads, hcarried⟩
      · rintro ⟨verdict, hcarries, hcarried⟩
        cases hcarries with
        | outlet hleads => exact ⟨verdict, hleads, hcarried⟩

/-- A send comes back with what its transport makes of it, or declined. -/
theorem returns_send_iff :
    (∃ later, moment.Returns count later outcome) ↔
      (((moment.after count).session.server.addressed id).Takes action ∧
          ∃ verdict final, (moment.after count).session.Carries id action
            ((moment.after count).session.server.addressed id).transport verdict final ∧
              outcome = carried verdict) ∨
        (¬((moment.after count).session.server.addressed id).Takes action ∧ outcome = .ok (.flag false)) := by
  by_cases htakes : ((moment.after count).session.server.addressed id).Takes action
  · have hreturns : (∃ later, moment.Returns count later outcome) ↔
        ∃ verdict final, (moment.after count).session.Carries id action
          ((moment.after count).session.server.addressed id).transport verdict final ∧
            outcome = carried verdict := by
      constructor
      · rintro ⟨later, hreturns⟩
        obtain ⟨verdict, hcarries⟩ := (returns_iff_of_takes htask htakes).1 ⟨later, hreturns, rfl⟩
        exact ⟨verdict, _, hcarries⟩
      · rintro ⟨verdict, final, hcarries⟩
        obtain ⟨later, hreturns, -⟩ := (returns_iff_of_takes htask htakes).2 ⟨verdict, hcarries⟩
        exact ⟨later, hreturns⟩
    rw [hreturns, and_iff_right htakes, or_iff_left fun hnot => hnot.1 htakes]
  · rw [returns_iff_of_not_takes htask htakes, and_iff_right htakes, or_iff_right fun hboth => htakes hboth.1]

theorem returns_true_iff :
    (∃ later, moment.Returns count later (.ok (.flag true))) ↔
      ((moment.after count).session.server.addressed id).Takes action ∧
        ∃ flag final, (moment.after count).session.Carries id action
          ((moment.after count).session.server.addressed id).transport (.ok flag) final := by
  rw [returns_send_iff htask]
  constructor
  · rintro (⟨htakes, verdict, final, hcarries, hcarried⟩ | ⟨-, ⟨⟩⟩)
    cases verdict with
    | ok flag => exact ⟨htakes, flag, final, hcarries⟩
    | error text => cases hcarried
  · rintro ⟨htakes, flag, final, hcarries⟩
    exact .inl ⟨htakes, .ok flag, final, hcarries, rfl⟩

theorem returns_false_iff :
    (∃ later, moment.Returns count later (.ok (.flag false))) ↔
      ¬((moment.after count).session.server.addressed id).Takes action := by
  rw [returns_send_iff htask]
  constructor
  · rintro (⟨-, verdict, final, -, hcarried⟩ | ⟨hnot, -⟩)
    · cases verdict <;> cases hcarried
    · exact hnot
  · exact fun hnot => .inr ⟨hnot, rfl⟩

theorem returns_raised_iff (text : Bytes) :
    (∃ later, moment.Returns count later (.error (.raised text))) ↔
      ((moment.after count).session.server.addressed id).Takes action ∧
        ∃ final, (moment.after count).session.Carries id action
          ((moment.after count).session.server.addressed id).transport (.error text) final := by
  rw [returns_send_iff htask]
  constructor
  · rintro (⟨htakes, verdict, final, hcarries, hcarried⟩ | ⟨-, ⟨⟩⟩)
    cases verdict with
    | ok flag => cases hcarried
    | error other =>
        cases hcarried
        exact ⟨htakes, final, hcarries⟩
  · rintro ⟨htakes, final, hcarries⟩
    exact .inl ⟨htakes, .error text, final, hcarries, rfl⟩

theorem outcome_of_returns (hreturns : moment.Returns count later outcome) :
    outcome = .ok (.flag true) ∨ outcome = .ok (.flag false) ∨ ∃ text, outcome = .error (.raised text) := by
  rcases (returns_send_iff htask).1 ⟨later, hreturns⟩ with ⟨-, verdict, final, -, rfl⟩ | ⟨-, rfl⟩
  · cases verdict with
    | ok flag => exact .inl rfl
    | error text => exact .inr (.inr ⟨text, rfl⟩)
  · exact .inr (.inl rfl)

/-- **Frame.** A send comes back from a transport that asks for nothing, and leaves all channels as they are. -/
theorem retains_of_quiet
    (hquiet : ((moment.after count).session.server.addressed id).transport.Quiet) :
    ∃ later outcome, moment.Returns count later outcome ∧
      (moment.after count).session.Retains (moment.after later).session := by
  by_cases htakes : ((moment.after count).session.server.addressed id).Takes action
  · obtain ⟨verdict, final, hcarries, hretains⟩ :=
      Session.exists_carries_of_quiet id action htakes.1 hquiet
    obtain ⟨later, hreturns, rfl⟩ := (returns_iff_of_takes htask htakes).2 ⟨verdict, hcarries, rfl⟩
    exact ⟨later, carried verdict, hreturns, hretains⟩
  · obtain ⟨line, hnext⟩ := next_of_not_takes htask htakes
    refine ⟨count + 1, _, returns_of_next hnext, ?_⟩
    rw [after, hnext]
    exact (Session.retains_openChannel _ id).trans (.log _ _)

end Send

/-- An action is handed over when it is asked for, unless the send comes back declined. -/
theorem handed?_eq_some_iff {transport : Transport} :
    (moment.after count).handed? = some (transport, action) ↔
      ∃ id, (moment.after count).task = .ask (.send id (.ok action)) ∧
        transport = ((moment.after count).session.server.addressed id).transport ∧
          ¬∃ later, moment.Returns count later (.ok (.flag false)) := by
  constructor
  · intro hhanded
    obtain ⟨id, htask, htakes, htransport⟩ := exists_send_of_handed? hhanded
    exact ⟨id, htask, htransport, fun hfalse => (returns_false_iff htask).1 hfalse htakes⟩
  · rintro ⟨id, htask, rfl, hfalse⟩
    exact handed?_of_takes htask (Classical.not_not.1 (mt (returns_false_iff htask).2 hfalse))

/-! ### What transports report -/

/-- What a transport reports when it is handed an action. -/
def reported? (handed : Transport × Action) : Option (Bytes × Action) :=
  handed.1.label?.map fun label => (label, handed.2)

def handovers (moment : Moment) (count : Nat) : List (Transport × Action) :=
  (List.range count).filterMap fun earlier => (moment.after earlier).handed?

theorem sent_handOver (session : Session) (label : Option Bytes) (action : Action) :
    (session.handOver label action).sent = session.sent ++ (label.map fun label => (label, action)).toList := by
  cases label with
  | none => exact (List.append_nil _).symm
  | some label => exact session.sent_record _

/-- **One moment.** What is handed over is reported, and nothing else is. -/
theorem sent_next :
    moment.next.session.sent = moment.session.sent ++ (moment.handed?.bind reported?).toList := by
  cases hhanded : moment.handed? with
  | none => exact (withholds_next hhanded).sent.trans (List.append_nil _).symm
  | some handed =>
      obtain ⟨transport, action⟩ := handed
      obtain ⟨id, htask, htakes, rfl⟩ := exists_send_of_handed? hhanded
      cases htransport : (moment.session.server.addressed id).transport with
      | absent => exact absurd htransport htakes.1
      | uplink =>
          -- What the server takes is a packet, and not reported.
          rw [next_of_uplink htask htakes htransport]
          exact (List.append_nil _).symm
      | outlet label carry =>
          rw [next_of_outlet htask htakes htransport]
          exact sent_handOver (moment.session.openChannel id) label action

theorem handovers_succ (moment : Moment) (count : Nat) :
    moment.handovers (count + 1) = moment.handovers count ++ (moment.after count).handed?.toList := by
  rw [handovers, List.range_succ, List.filterMap_append, handovers]
  cases hhanded : (moment.after count).handed? with
  | none => rw [List.filterMap_cons, hhanded]; rfl
  | some handed => rw [List.filterMap_cons, hhanded]; rfl

/-- **Reports.** What was reported as sent is what was handed over, in the same order and once each. -/
theorem sent_after (moment : Moment) (count : Nat) :
    (moment.after count).session.sent = moment.session.sent ++ (moment.handovers count).filterMap reported? := by
  induction count with
  | zero => exact (List.append_nil _).symm
  | succ count ih =>
      have hlast : ((moment.after count).handed?.bind reported?).toList =
          (moment.after count).handed?.toList.filterMap reported? := by
        cases (moment.after count).handed? with
        | none => rfl
        | some handed => cases hreported : reported? handed <;> simp [hreported]
      rw [after, sent_next, ih, hlast, handovers_succ, List.filterMap_append, List.append_assoc]

end Moment

/-! ### Sends alone -/

/-- A program that asks for sends only. -/
def Program.Sends : Program → Prop
  | .finish _ => True
  | .perform command next => (∃ id action, command = .send id action) ∧ ∀ outcome, (next outcome).Sends

/-- A transport that asks for sends only, if for anything. -/
def Transport.Sends : Transport → Prop
  | .outlet _ carry => ∀ action, (carry action).Sends
  | _ => True

def Task.Sends : Task → Prop
  | .run program => program.Sends
  | .ask command => ∃ id action, command = .send id action
  | .answer _ => True
  | _ => False

def Frame.Sends : Frame → Prop
  | .asking _ next => ∀ outcome, (next outcome).Sends
  | .carrying => True
  | _ => False

namespace Moment

/-- Nothing goes on but sends, and what transports ask for is no more than that. -/
structure Sends (moment : Moment) : Prop where
  task : moment.task.Sends
  stack : ∀ frame ∈ moment.stack, frame.Sends
  transports : ∀ id, (moment.session.server.addressed id).transport.Sends

namespace Sends

variable {session : Session} {stack : List Frame}

theorem of_retains {next : Session} {task : Task}
    (htransports : ∀ id, (session.server.addressed id).transport.Sends) (hretains : session.Retains next)
    (htask : task.Sends) (hstack : ∀ frame ∈ stack, frame.Sends) : Sends ⟨next, task, stack⟩ where
  task := htask
  stack := hstack
  transports id := by
    rw [Server.addressed, hretains.server.channel]
    exact htransports id

/-- **One moment.** Sends give rise to sends, and leave all channels as they are. -/
theorem next {moment : Moment} (hsends : moment.Sends) :
    moment.session.Retains moment.next.session ∧ moment.next.Sends := by
  obtain ⟨session, task, stack⟩ := moment
  obtain ⟨htask, hstack, htransports⟩ := hsends
  cases task with
  | run program =>
      cases program with
      | perform command next =>
          obtain ⟨hsend, hnext⟩ := htask
          refine ⟨.refl session, of_retains htransports (.refl session) hsend ?_⟩
          exact List.forall_mem_cons.2 ⟨hnext, hstack⟩
      | finish verdict =>
          have hretains := retains_takeVerdict verdict session stack
          refine ⟨hretains, ?_⟩
          cases stack with
          | nil => exact of_retains htransports hretains trivial hstack
          | cons frame stack =>
              obtain ⟨hframe, hrest⟩ := List.forall_mem_cons.1 hstack
              cases frame with
              -- The transport's program has ended, and the send that waits for it is answered.
              | carrying =>
                  cases verdict with
                  | ok flag => exact of_retains htransports hretains trivial hrest
                  | error text => exact of_retains htransports hretains trivial hrest
              | asking verb next => exact of_retains htransports hretains trivial hstack
              | _ => exact hframe.elim
  | ask command =>
      obtain ⟨id, action, rfl⟩ := htask
      have hspares : (Command.send id action).SparesChannels := trivial
      have hretains := retains_ask hspares session stack
      refine ⟨hretains, ?_⟩
      cases action with
      | error error => exact of_retains htransports hretains trivial hstack
      | ok action =>
          have htask : (⟨session, .ask (.send id (.ok action)), stack⟩ : Moment).task =
              .ask (.send id (.ok action)) := rfl
          rcases next_send_cases htask with ⟨outcome, hnext⟩ | ⟨label, carry, htransport, -, hnext⟩
          · rw [hnext]
            exact of_retains htransports hretains trivial hstack
          · have hcarry := htransports id
            rw [htransport] at hcarry
            rw [hnext]
            exact of_retains htransports hretains (hcarry action) (List.forall_mem_cons.2 ⟨trivial, hstack⟩)
  | answer outcome =>
      have hretains := retains_takeOutcome outcome session stack
      refine ⟨hretains, ?_⟩
      cases stack with
      | nil => exact of_retains htransports hretains trivial hstack
      | cons frame stack =>
          obtain ⟨hframe, hrest⟩ := List.forall_mem_cons.1 hstack
          cases frame with
          | carrying => exact of_retains htransports hretains trivial hstack
          | asking verb next =>
              cases outcome with
              | ok value => exact of_retains htransports hretains (hframe _) hrest
              | error failure => exact of_retains htransports hretains (hframe _) hrest
          | _ => exact hframe.elim
  | _ => exact htask.elim

/-- **Sends alone.** However many sends go on, all channels stay as they are. -/
theorem after {moment : Moment} (hsends : moment.Sends) (count : Nat) :
    moment.session.Retains (moment.after count).session ∧ (moment.after count).Sends := by
  induction count with
  | zero => exact ⟨.refl moment.session, hsends⟩
  | succ count ih =>
      obtain ⟨hretains, hlast⟩ := ih
      obtain ⟨hnext, hsends⟩ := hlast.next
      exact ⟨hretains.trans hnext, hsends⟩

end Sends

/-- **Sends.** At every moment of every session on a channel, a send comes back with true if a transport is
installed and the action fits what the owner sees of the membership, provided that the transport does not fail:
where it fails, the send fails with the same text. Where none is installed or the action does not fit, the send
comes back with false. Nothing else ever comes back. What is handed over, unchanged, are the actions of those
sends that do not come back with false: transports are called with them and for nothing else, and report them in
this order and once each. A send whose transport asks for nothing comes back, and leaves channels and
subscriptions as they are. So do sends alone, however many, also where transports ask for more of them: they do
not change what is taken later. -/
theorem sends_reach_transports (logger : Log.Logger) (owner : MemberId) (program : Program) :
    let start : Moment := ⟨.onChannel logger owner, .run program, []⟩
    (∀ count id action, (start.after count).task = .ask (.send id (.ok action)) →
        let session := (start.after count).session
        let channel := session.server.addressed id
        ((∃ later, start.Returns count later (.ok (.flag true))) ↔
            channel.Takes action ∧ ∃ flag final, session.Carries id action channel.transport (.ok flag) final) ∧
          ((∃ later, start.Returns count later (.ok (.flag false))) ↔ ¬channel.Takes action) ∧
          (∀ text, (∃ later, start.Returns count later (.error (.raised text))) ↔
            channel.Takes action ∧ ∃ final, session.Carries id action channel.transport (.error text) final) ∧
          (∀ later outcome, start.Returns count later outcome →
            outcome = .ok (.flag true) ∨ outcome = .ok (.flag false) ∨ ∃ text, outcome = .error (.raised text)) ∧
          (channel.transport.Quiet →
            ∃ later outcome, start.Returns count later outcome ∧ session.Retains (start.after later).session)) ∧
      (∀ count transport action, (start.after count).handed? = some (transport, action) ↔
        ∃ id, (start.after count).task = .ask (.send id (.ok action)) ∧
          transport = ((start.after count).session.server.addressed id).transport ∧
            ¬∃ later, start.Returns count later (.ok (.flag false))) ∧
      (∀ count action,
        (∀ label carry, (start.after count).handed? = some (.outlet label carry, action) →
          (start.after (count + 1)).task = .run (carry action) ∧
            (start.after (count + 1)).stack = .carrying :: (start.after count).stack) ∧
          ((start.after count).handed? = some (.uplink, action) → ∃ id,
            (start.after (count + 1)).session.server.incoming =
              (start.after count).session.server.incoming ++ [⟨id, action⟩])) ∧
      (∀ count, (start.after count).handed? = none →
        (start.after count).session.Withholds (start.after (count + 1)).session ∧
          (start.after (count + 1)).stack ≠ .carrying :: (start.after count).stack) ∧
      (∀ count, (start.after count).session.sent = (start.handovers count).filterMap reported?) ∧
      (∀ session alone later, alone.Sends → (∀ id, (session.server.addressed id).transport.Sends) →
        let sending : Moment := ⟨session, .run alone, []⟩
        session.Retains (sending.after later).session ∧
          ∀ id action, ((sending.after later).session.server.addressed id).Takes action ↔
            (session.server.addressed id).Takes action) ∧
      ∀ limit verdict final,
        program.run (Session.exec limit) (.onChannel logger owner) = some (verdict, final) →
          ∃ count, start.after count = ⟨final, .run (.finish verdict), []⟩ := by
  intro start
  refine ⟨fun count id action htask => ⟨returns_true_iff htask, returns_false_iff htask, returns_raised_iff htask,
    fun later outcome => outcome_of_returns htask, retains_of_quiet htask⟩,
    fun count transport action => handed?_eq_some_iff, ?_, ?_, sent_after start, ?_, ?_⟩
  · refine fun count action => ⟨fun label carry hhanded => ?_, fun hhanded => ?_⟩
    · obtain ⟨id, htask, htakes, htransport⟩ := exists_send_of_handed? hhanded
      have hnext := next_of_outlet htask htakes htransport.symm
      exact ⟨congrArg Moment.task hnext, congrArg Moment.stack hnext⟩
    · obtain ⟨id, htask, htakes, htransport⟩ := exists_send_of_handed? hhanded
      refine ⟨id, ?_⟩
      rw [after, next_of_uplink htask htakes htransport.symm]
      exact congrArg (· ++ _) (Server.incoming_openMailbox _ id)
  · refine fun count hhanded => ⟨withholds_next hhanded, fun hcarrying => ?_⟩
    obtain ⟨label, carry, action, hcalled, -⟩ := handed?_of_carrying hcarrying
    cases hhanded.symm.trans hcalled
  · intro session alone later halone htransports sending
    have hsends : sending.Sends := ⟨halone, List.forall_mem_nil _, htransports⟩
    have hretains := (hsends.after later).1
    refine ⟨hretains, fun id action => ?_⟩
    rw [Server.addressed, hretains.server.channel]
    rfl
  · exact fun limit verdict final => Session.leads_to_verdict []

/-- Installs a transport and asks to enter the group. -/
def enteringProgram (owner : MemberId) (transport : Transport) : Program :=
  .perform (.install owner transport) fun _ =>
  .perform (.send owner (.ok (.control .selfEnter))) fun _ => .finish (.ok true)

/-- A transport that reports what it is handed gets the action, and the channel is as it was. -/
theorem recording_transports_are_handed_actions :
    let start : Moment :=
      ⟨.onChannel ⟨.absent, .debug⟩ [65], .run (enteringProgram [65] (.recording [82])), []⟩
    (start.after 4).task = .ask (.send [65] (.ok (.control .selfEnter))) ∧
      (∃ later, start.Returns 4 later (.ok (.flag true))) ∧
      ∃ later outcome, start.Returns 4 later outcome ∧
        (start.after 4).session.Retains (start.after later).session := by
  intro start
  have hsends := (sends_reach_transports ⟨.absent, .debug⟩ [65] (enteringProgram [65] (.recording [82]))).1
  obtain ⟨htrue, -, -, -, hquiet⟩ := hsends 4 [65] (.control .selfEnter) rfl
  refine ⟨rfl, htrue.2 ⟨⟨Transport.noConfusion, rfl⟩, true, _, .outlet (.refl _)⟩, hquiet fun action => ?_⟩
  exact ⟨.ok true, rfl⟩

/-- A transport that fails has been handed the action all the same. -/
theorem failing_transports_are_handed_actions :
    let text := Bytes.ofString "transport broke"
    let start : Moment := ⟨.onChannel ⟨.absent, .debug⟩ [65], .run (enteringProgram [65] (.failing text)), []⟩
    (start.after 4).task = .ask (.send [65] (.ok (.control .selfEnter))) ∧
      ((start.after 4).session.server.addressed [65]).Takes (.control .selfEnter) ∧
      (start.after 4).handed? = some (.failing text, .control .selfEnter) ∧
      start.Returns 4 6 (.error (.raised text)) ∧
      ¬∃ later, start.Returns 4 later (.ok (.flag true)) := by
  intro text start
  have htask : (start.after 4).task = .ask (.send [65] (.ok (.control .selfEnter))) := rfl
  have htakes : ((start.after 4).session.server.addressed [65]).Takes (.control .selfEnter) :=
    ⟨Transport.noConfusion, rfl⟩
  have hreturns : start.Returns 4 6 (.error (.raised text)) := by
    refine ⟨by decide, rfl, rfl, fun between hlt hbetween => ?_⟩
    obtain rfl : between = 5 := by omega
    exact Nat.lt_succ_self _
  refine ⟨htask, htakes, handed?_of_takes htask htakes, hreturns, ?_⟩
  rintro ⟨later, htrue⟩
  cases (htrue.unique hreturns).2

end Moment

end GroupChat
