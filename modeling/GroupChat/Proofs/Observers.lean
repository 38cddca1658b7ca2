import GroupChat.Proofs.CodecMessages
import GroupChat.Session.Transcript

/-!
# What observers hear of a run

A run can be told once and for all: what it comes to, and notes of what happens meanwhile, messages and changes
of the level among them. Everybody who observes the run hears a part of the notes, which only the own logger
decides on. Main statement: there is such a chronicle of every command, and so of every session.
-/

namespace GroupChat

/-- A message of the log, and not something that has happened. -/
def Event.isLog : Event → Bool
  | .log _ => true
  | _ => false

/-- What one observer or another may hear of. -/
inductive Note where
  | happened (event : Event) (plain : event.isLog = false)
  | message (line : Log.Line)
  | level (level : Log.Level)

namespace Note

def adjust (logger : Log.Logger) : Note → Log.Logger
  | .level threshold => { logger with threshold }
  | _ => logger

def heard (logger : Log.Logger) : Note → List Event
  | .happened event _ => [event]
  | .message line => (logger.delivered [line]).map .log
  | .level _ => []

def adjustAll (logger : Log.Logger) (notes : List Note) : Log.Logger := notes.foldl adjust logger

def hear : Log.Logger → List Note → List Event
  | _, [] => []
  | logger, note :: notes => note.heard logger ++ hear (note.adjust logger) notes

theorem hear_append (logger : Log.Logger) (notes more : List Note) :
    hear logger (notes ++ more) = hear logger notes ++ hear (adjustAll logger notes) more := by
  induction notes generalizing logger with
  | nil => rfl
  | cons note notes ih =>
      rw [List.cons_append, hear, hear, ih, List.append_assoc]
      rfl

theorem adjustAll_append (logger : Log.Logger) (notes more : List Note) :
    adjustAll logger (notes ++ more) = adjustAll (adjustAll logger notes) more :=
  List.foldl_append

theorem adjustAll_messages (logger : Log.Logger) (lines : List Log.Line) :
    adjustAll logger (lines.map message) = logger := by
  induction lines with
  | nil => rfl
  | cons line lines ih => exact ih

theorem hear_messages (logger : Log.Logger) (lines : List Log.Line) :
    hear logger (lines.map message) = (logger.delivered lines).map .log := by
  induction lines with
  | nil => rfl
  | cons line lines ih =>
      calc
        hear logger ((line :: lines).map message)
          = (logger.delivered [line]).map .log ++ (logger.delivered lines).map .log :=
            congrArg (_ ++ ·) ih
        _ = (logger.delivered (line :: lines)).map .log := by
            rw [← List.map_append, ← Log.Logger.delivered_append, List.singleton_append]

/-- Whenever a program has set the level, this is heard of as well. -/
def Reported (notes : List Note) : Prop :=
  ∀ threshold, level threshold ∈ notes → happened (.did .setLevel .nothing) rfl ∈ notes

theorem Reported.append {notes more : List Note} (hnotes : Reported notes) (hmore : Reported more) :
    Reported (notes ++ more) := by
  intro threshold hmem
  rcases List.mem_append.1 hmem with hmem | hmem
  · exact List.mem_append_left more (hnotes threshold hmem)
  · exact List.mem_append_right notes (hmore threshold hmem)

theorem reported_nil : Reported [] := fun _ hmem => absurd hmem List.not_mem_nil

theorem reported_happened {event : Event} (plain : event.isLog = false) : Reported [happened event plain] := by
  intro threshold hmem
  cases List.mem_singleton.1 hmem

theorem reported_messages (lines : List Log.Line) : Reported (lines.map message) := by
  intro threshold hmem
  obtain ⟨line, -, hline⟩ := List.mem_map.1 hmem
  cases hline

end Note

namespace Session

/-- The session as one observer finds it: under the own logger, after what was heard so far. -/
def observed (session : Session) (logger : Log.Logger) (events : List Event) : Session :=
  { session with logger, events }

@[simp] theorem server_observed (session : Session) (logger : Log.Logger) (events : List Event) :
    (session.observed logger events).server = session.server := rfl

@[simp] theorem channel?_observed (session : Session) (logger : Log.Logger) (events : List Event) :
    (session.observed logger events).channel? = session.channel? := rfl

theorem subscribe_observed (session : Session) (id : MemberId) (subscriber : Subscriber) (logger : Log.Logger)
    (events : List Event) :
    (session.observed logger events).subscribe id subscriber =
      (session.subscribe id subscriber).observed logger events := by
  unfold subscribe
  rw [channel?_observed]
  cases session.channel? id <;> rfl

theorem unsubscribe_observed (session : Session) (id : MemberId) (key : Nat) (logger : Log.Logger)
    (events : List Event) :
    (session.observed logger events).unsubscribe id key =
      (session.unsubscribe id key).observed logger events := by
  unfold unsubscribe
  rw [channel?_observed]
  cases session.channel? id <;> rfl

theorem cancel_observed (session : Session) (name : MemberId) (logger : Log.Logger) (events : List Event) :
    (session.observed logger events).cancel name =
      ((session.cancel name).1, (session.cancel name).2.observed logger events) := by
  have hhandles : (session.observed logger events).handles = session.handles := rfl
  unfold cancel
  rw [hhandles]
  cases session.handles.get? name with
  | none => rfl
  | some handle => exact congrArg (Prod.mk _) (unsubscribe_observed session handle.1 handle.2 logger events)

end Session

/-- There is a chronicle of what every observer gets: what a run comes to, and notes that each of them hears a
part of. -/
def Chronicle {α : Type} (answer : Log.Logger → List Event → Option (α × Session)) : Prop :=
  (∀ logger events, answer logger events = none) ∨
    ∃ value, ∃ next : Session, ∃ notes, Note.Reported notes ∧ ∀ logger events,
      answer logger events =
        some (value, next.observed (Note.adjustAll logger notes) (events ++ Note.hear logger notes))

/-- A run has a chronicle, whoever observes it from a session on. -/
abbrev Session.Tells {α : Type} (session : Session) (run : Run α) : Prop :=
  Chronicle fun logger events => run (session.observed logger events)

theorem Run.bind_eq {α β : Type} {run : Run α} {rest : α → Run β} {session : Session}
    {answer : Option (α × Session)} (hanswer : run session = answer) :
    (run >>= rest) session = answer.bind fun pair => rest pair.1 pair.2 :=
  congrArg (fun answer : Option (α × Session) => answer.bind fun pair => rest pair.1 pair.2) hanswer

namespace Chronicle

variable {α β : Type} {session middle : Session} {run : Run α} {rest : α → Run β} {notes : List Note}

theorem failure : session.Tells (failure : Run α) := Or.inl fun _ _ => rfl

theorem pure (session : Session) (value : α) : session.Tells (pure value : Run α) :=
  Or.inr ⟨value, session, [], Note.reported_nil, fun logger events => by
    rw [Note.hear, List.append_nil]
    rfl⟩

/-- Goes on once something is noted. -/
theorem after {answer : Log.Logger → List Event → Option (α × Session)} (hnotes : Note.Reported notes)
    (hanswer : ∀ logger events, answer logger events =
      run (middle.observed (Note.adjustAll logger notes) (events ++ Note.hear logger notes)))
    (hrun : middle.Tells run) : Chronicle answer := by
  rcases hrun with hnone | ⟨value, next, more, hmore, hsome⟩
  · exact Or.inl fun logger events => (hanswer logger events).trans (hnone _ _)
  · refine Or.inr ⟨value, next, notes ++ more, hnotes.append hmore, fun logger events => ?_⟩
    rw [Note.adjustAll_append, Note.hear_append, ← List.append_assoc]
    exact (hanswer logger events).trans (hsome _ _)

theorem bind (hrun : session.Tells run) (hrest : ∀ value (next : Session), next.Tells (rest value)) :
    session.Tells (run >>= rest) := by
  rcases hrun with hnone | ⟨value, next, notes, hnotes, hsome⟩
  · exact Or.inl fun logger events => Run.bind_eq (hnone logger events)
  · exact after hnotes (fun logger events => Run.bind_eq (hsome logger events)) (hrest value next)

theorem ite {condition : Log.Logger → List Event → Prop}
    {_ : ∀ logger events, Decidable (condition logger events)} {first second : Run α} (shared : Prop)
    (hshared : ∀ logger events, condition logger events ↔ shared)
    (hfirst : shared → session.Tells first) (hsecond : ¬shared → session.Tells second) :
    Chronicle fun logger events =>
      (if condition logger events then first else second) (session.observed logger events) := by
  by_cases hcase : shared
  · have hif logger events : (if condition logger events then first else second) = first :=
      if_pos ((hshared logger events).2 hcase)
    simp only [hif]
    exact hfirst hcase
  · have hif logger events : (if condition logger events then first else second) = second :=
      if_neg fun hcondition => hcase ((hshared logger events).1 hcondition)
    simp only [hif]
    exact hsecond hcase

theorem get {rest : Session → Run β}
    (hrest : Chronicle fun logger events =>
      rest (session.observed logger events) (session.observed logger events)) :
    session.Tells (get >>= rest) :=
  hrest

theorem set {start change : Log.Logger → List Event → Session} {rest : Unit → Run β}
    (hrest : Chronicle fun logger events => rest () (change logger events)) :
    Chronicle fun logger events => (set (change logger events) >>= rest) (start logger events) :=
  hrest

/-- Goes on after a change that nobody notices. -/
theorem modify (middle : Session) {change : Session → Session} {rest : Unit → Run β}
    (hchange : ∀ logger events, change (session.observed logger events) = middle.observed logger events)
    (hrest : middle.Tells (rest ())) : session.Tells (modify change >>= rest) := by
  refine after Note.reported_nil (fun logger events => ?_) hrest
  rw [Note.hear, List.append_nil]
  exact congrArg (rest ()) (hchange logger events)

/-- Goes on once something has happened that is not a message. -/
theorem record (event : Event) (plain : event.isLog = false) (hrun : middle.Tells run) :
    Chronicle fun logger events => run ((middle.observed logger events).record event) :=
  after (Note.reported_happened plain) (fun _ _ => rfl) hrun

/-- Goes on once messages are given. -/
theorem log (lines : List Log.Line) (hrun : middle.Tells run) :
    Chronicle fun logger events => run ((middle.observed logger events).log lines) := by
  refine after (Note.reported_messages lines) (fun logger events => ?_) hrun
  rw [Note.hear_messages, Note.adjustAll_messages]
  rfl

end Chronicle

/-- Commands have chronicles. One that sets the level is not reported by itself, only by the program that asks
for it. -/
structure Recounts (exec : Command → Run Outcome) : Prop where
  tells : ∀ command, command.verb ≠ .setLevel → ∀ session : Session, session.Tells (exec command)
  sets : ∀ threshold, (∀ session, exec (.setLevel threshold) session = none) ∨ ∀ session,
    exec (.setLevel threshold) session =
      some (.ok .nothing, { session with logger := { session.logger with threshold } })

variable {exec : Command → Run Outcome}

/-- A program that sets the level says so at once. -/
theorem Program.setLevel_tells (hexec : Recounts exec) (threshold : Log.Level) (next : Outcome → Program)
    {session : Session} (hnext : session.Tells ((next (.ok .nothing)).run exec)) :
    session.Tells ((Program.perform (.setLevel threshold) next).run exec) := by
  rcases hexec.sets threshold with hnone | hsome
  · exact Or.inl fun logger events => Run.bind_eq (hnone _)
  · have hnotes : Note.Reported [.level threshold, .happened (.did .setLevel .nothing) rfl] := by
      intro other _
      exact List.mem_cons_of_mem _ List.mem_cons_self
    exact .after hnotes (fun logger events => Run.bind_eq (hsome _)) hnext

theorem Program.tells (hexec : Recounts exec) (program : Program) (session : Session) :
    session.Tells (program.run exec) := by
  -- Only programs are recursed into: what a command gives rise to is left to `exec`.
  induction program using Program.rec
    (motive_1 := fun _ => True) (motive_3 := fun _ => True) generalizing session with
  | finish verdict => exact .pure session verdict
  | perform command next _ ih =>
      by_cases hverb : command.verb = .setLevel
      · cases command <;> cases hverb
        exact setLevel_tells hexec _ next (ih _ session)
      · simp only [Program.run]
        refine .bind (hexec.tells command hverb session) fun outcome later => ?_
        cases outcome with
        | error failure => exact ih _ later
        | ok value => exact .record (.did command.verb value) rfl (ih _ later)
  | _ => trivial

namespace Session

theorem call_tells (hexec : Recounts exec) (id : MemberId) (notice : Notice) (subscriber : Subscriber)
    (session : Session) : session.Tells (call exec id notice subscriber) :=
  .get (.record (.notice subscriber.name notice (session.standing id)) rfl
    (Program.tells hexec
      (subscriber.respond (session.callCount subscriber.name) notice (session.standing id))
      (session.countCall subscriber.name)))

theorem callAll_tells (hexec : Recounts exec) (channel : Channel) (notice : Notice)
    (subscribers : List (Nat × Subscriber)) (session : Session) :
    session.Tells (callAll exec channel notice subscribers) := by
  induction subscribers generalizing session with
  | nil => exact .pure session false
  | cons entry rest ih =>
      obtain ⟨key, subscriber⟩ := entry
      simp only [callAll]
      refine .get (.ite (session.isSubscribed channel.owner key = true) (fun _ _ => .rfl) (fun _ => ?_)
        fun _ => ih session)
      refine .bind (call_tells hexec _ _ _ session) fun verdict next => ?_
      cases verdict with
      | ok handled => exact .bind (ih next) fun others later => .pure later (handled || others)
      | error text => exact .log _ (ih next)

theorem publish_tells (hexec : Recounts exec) (channel : Channel) (notice : Notice) (session : Session) :
    session.Tells (publish exec channel notice) := by
  refine .ite (channel.publishes notice = true) (fun _ _ => .rfl) (fun _ => ?_) fun _ => .pure session _
  refine .modify (session.beginPublishing channel.owner) (fun _ _ => rfl) ?_
  refine .bind (callAll_tells hexec _ _ _ _) fun handled next => ?_
  exact .modify (next.endPublishing channel.owner) (fun _ _ => rfl) (.pure _ _)

theorem notify_tells (hexec : Recounts exec) (id : MemberId) (notice : Notice) (session : Session) :
    session.Tells (notify exec id notice) := by
  refine .get ?_
  dsimp only [channel?_observed, server_observed]
  cases session.channel? id with
  | none => exact .pure session _
  | some channel =>
      dsimp only
      cases session.server.notify id channel notice with
      | error failure => exact .pure session _
      | ok result =>
          exact .set (.log [result.2.2] (publish_tells hexec _ notice { session with server := result.1 }))

theorem send_tells (hexec : Recounts exec) (id : MemberId) (action : Action) (session : Session) :
    session.Tells (send exec id action) := by
  refine .get ?_
  dsimp only [channel?_observed, server_observed]
  cases session.channel? id with
  | none => exact .pure session _
  | some channel =>
      dsimp only
      cases channel.refusal? action with
      | some line => exact .set (.log [line] (.pure session _))
      | none =>
          cases channel.transport with
          | absent => exact .pure session _
          | uplink => exact .set (.pure { session with server := session.server.submit ⟨id, action⟩ } _)
          | outlet label carry =>
              have hcarry := Program.tells hexec (carry action) session
              cases label with
              | none => exact .bind hcarry fun verdict next => by cases verdict <;> exact .pure next _
              | some label =>
                  refine .set (.record (.sent label action) rfl (.bind hcarry fun verdict next => ?_))
                  cases verdict <;> exact .pure next _

theorem deliverTo_tells (hexec : Recounts exec) (id : MemberId) (session : Session) :
    session.Tells (deliverTo exec id) := by
  refine .get ?_
  dsimp only [server_observed]
  cases session.server.takeNotice id with
  | error error => exact .pure session _
  | ok result => exact notify_tells hexec id result.1 { session with server := result.2 }

theorem deliverAll_tells (hexec : Recounts exec) (limit : Nat) (session : Session) :
    session.Tells (deliverAll exec limit) := by
  induction limit generalizing session with
  | zero => exact .failure
  | succ limit ih =>
      refine .get ?_
      dsimp only [server_observed]
      cases session.server.target? with
      | none => exact .pure session _
      | some id =>
          refine .bind (deliverTo_tells hexec id session) fun outcome next => ?_
          cases outcome with
          | error failure => exact .pure next _
          | ok value => exact .bind (ih next) fun result later => .pure later _

theorem serve_tells {α : Type} (step : Server → Except Failure (α × Server × List Log.Line))
    (session : Session) : session.Tells (serve step) := by
  refine .get ?_
  dsimp only [server_observed]
  cases step session.server with
  | error failure => exact .pure session _
  | ok result => exact .set (.log result.2.2 (.pure { session with server := result.2.1 } _))

theorem settleAll_tells (hexec : Recounts exec) (limit : Nat) (session : Session) :
    session.Tells (settleAll exec limit) := by
  induction limit generalizing session with
  | zero => exact .failure
  | succ limit ih =>
      refine .bind (serve_tells _ session) fun received next => ?_
      cases received with
      | error failure => exact .pure next _
      | ok received =>
          refine .bind (deliverAll_tells hexec limit next) fun delivered later => ?_
          cases delivered with
          | error failure => exact .pure later _
          | ok delivered => exact .ite _ (fun _ _ => .rfl) (fun _ => .pure later _) fun _ => ih later

theorem step_tells (hexec : Recounts exec) (limit : Nat) {command : Command}
    (hverb : command.verb ≠ .setLevel) (session : Session) : session.Tells (step exec limit command) := by
  cases command with
  | setLevel threshold => exact absurd rfl hverb
  | openChannel id => exact .modify (session.openChannel id) (fun _ _ => rfl) (.pure _ _)
  | send id action =>
      refine .modify (session.openChannel id) (fun _ _ => rfl) ?_
      cases action with
      | error error => exact .pure _ _
      | ok action => exact send_tells hexec id action _
  | notify id notice =>
      refine .modify (session.openChannel id) (fun _ _ => rfl) ?_
      cases notice with
      | error error => exact .pure _ _
      | ok notice => exact notify_tells hexec id notice _
  | subscribe id name respond =>
      exact .modify ((session.openChannel id).subscribe id ⟨name, respond⟩)
        (subscribe_observed (session.openChannel id) id ⟨name, respond⟩) (.pure _ _)
  | cancel name =>
      refine .get ?_
      simp only [cancel_observed]
      exact .set (.pure (session.cancel name).2 _)
  | install id transport =>
      exact .modify (session.modifyChannel id fun channel => { channel with transport }) (fun _ _ => rfl)
        (.pure _ _)
  | drop id => exact .modify (session.drop id) (fun _ _ => rfl) (.pure _ _)
  | receive index => exact .bind (serve_tells _ session) fun result next => .pure next _
  | receiveAll => exact .bind (serve_tells _ session) fun result next => .pure next _
  | deliver id =>
      cases id with
      | some id => exact deliverTo_tells hexec id session
      | none =>
          refine .get ?_
          dsimp only [server_observed]
          cases session.server.target? with
          | none => exact .pure session _
          | some id => exact deliverTo_tells hexec id session
  | deliverAll => exact .bind (deliverAll_tells hexec limit session) fun result next => .pure next _
  | run => exact settleAll_tells hexec limit session
  | target => exact .get (.pure session (Except.ok (Value.target session.server.target?)))
  | queued id => exact .get (.pure session (Except.ok (Value.count (session.server.queue id).length)))

theorem exec_recounts (limit : Nat) : Recounts (Session.exec limit) := by
  induction limit with
  | zero => exact ⟨fun command _ session => .failure, fun threshold => .inl fun session => rfl⟩
  | succ limit ih =>
      exact ⟨fun command hverb session => step_tells ih limit hverb session,
        fun threshold => .inr fun session => rfl⟩

end Session

end GroupChat
