import GroupChat.Session.Basic

/-!
Carrying out commands. Subscribers may ask for further commands while a notice is being published, so
this is bounded by a limit, which decides whether a run finishes and nothing else.
-/

namespace GroupChat

/-- Runs out with `none` where the limit is too small. -/
abbrev Run := StateT Session Option

/-- Carries out a program. Each command that succeeds is reported. -/
def Program.run (exec : Command → Run Outcome) : Program → Run (Except Bytes Bool)
  | .finish verdict => pure verdict
  | .perform command next => do
      let outcome ← exec command
      if let .ok value := outcome then modify (·.record (.did command.verb value))
      (next outcome).run exec

namespace Session

def call (exec : Command → Run Outcome) (id : MemberId) (notice : Notice) (subscriber : Subscriber) :
    Run (Except Bytes Bool) := do
  let session ← get
  let standing := session.standing id
  let earlier := session.callCount subscriber.name
  set ((session.record (.notice subscriber.name notice standing)).countCall subscriber.name)
  (subscriber.respond earlier notice standing).run exec

/-- Calls subscribers one after the other, except those cancelled in the meantime. One that fails does
not keep the notice from the others. -/
def callAll (exec : Command → Run Outcome) (channel : Channel) (notice : Notice) :
    List (Nat × Subscriber) → Run Bool
  | [] => pure false
  | (key, subscriber) :: rest => do
      if (← get).isSubscribed channel.owner key then
        match ← call exec channel.owner notice subscriber with
        | .ok handled =>
            let others ← callAll exec channel notice rest
            return handled || others
        | .error text =>
            modify (·.log [channel.line .error
              (Bytes.ofString "subscriber failed: " ++ (Failure.raised text).message)])
            callAll exec channel notice rest
      else callAll exec channel notice rest

/-- What is left of a delivery once the channel has taken the notice. -/
def publish (exec : Command → Run Outcome) (channel : Channel) (notice : Notice) : Run Outcome :=
  if channel.publishes notice then do
    modify (·.beginPublishing channel.owner)
    let handled ← callAll exec channel notice channel.subscriptions.active
    modify (·.endPublishing channel.owner)
    return .ok (.flag handled)
  else return .ok (.flag false)

/-- A channel receives a notice. The answer says whether a subscriber accepted it. -/
def notify (exec : Command → Run Outcome) (id : MemberId) (notice : Notice) : Run Outcome := do
  let session ← get
  match session.channel? id with
  | none => return .ok (.flag false)
  | some channel =>
      match session.server.notify id channel notice with
      | .error failure => return .error failure
      | .ok (server, next, line) =>
          set ({ session with server }.log [line])
          publish exec next notice

/-- A channel is asked to send an action. The answer says whether its transport got it. -/
def send (exec : Command → Run Outcome) (id : MemberId) (action : Action) : Run Outcome := do
  let session ← get
  match session.channel? id with
  | none => return .ok (.flag false)
  | some channel =>
      match channel.refusal? action with
      | some line =>
          set (session.log [line])
          return .ok (.flag false)
      | none =>
          match channel.transport with
          | .absent => return .ok (.flag false)
          | .uplink =>
              set { session with server := session.server.submit ⟨id, action⟩ }
              return .ok (.flag true)
          | .outlet label carry =>
              if let some label := label then set (session.record (.sent label action))
              match ← (carry action).run exec with
              | .ok _ => return .ok (.flag true)
              | .error text => return .error (.raised text)

/-- Delivers the first notice that waits for a member. -/
def deliverTo (exec : Command → Run Outcome) (id : MemberId) : Run Outcome := do
  let session ← get
  match session.server.takeNotice id with
  | .error error => return .error (.request error)
  | .ok (notice, server) =>
      set { session with server }
      notify exec id notice

/-- Delivers notices until none are left, those included that are put into mailboxes meanwhile. -/
def deliverAll (exec : Command → Run Outcome) : (limit : Nat) → Run (Except Failure Nat)
  | 0 => failure
  | limit + 1 => do
      match (← get).server.target? with
      | none => return .ok 0
      | some id =>
          match ← deliverTo exec id with
          | .error error => return .error error
          | .ok _ => return (← deliverAll exec limit).map (· + 1)

/-- Applies a step of the server, unless it fails. -/
def serve {α : Type} (step : Server → Except Failure (α × Server × List Log.Line)) :
    Run (Except Failure α) := do
  let session ← get
  match step session.server with
  | .error error => return .error error
  | .ok (value, server, lines) =>
      set ({ session with server }.log lines)
      return .ok value

/-- Processes packets and delivers notices in turn until there are none of either. -/
def settleAll (exec : Command → Run Outcome) : (limit : Nat) → Run Outcome
  | 0 => failure
  | limit + 1 => do
      match ← serve Server.receiveAll with
      | .error error => return .error error
      | .ok received =>
          match ← deliverAll exec limit with
          | .error error => return .error error
          | .ok delivered =>
              if received = 0 ∧ delivered = 0 then return .ok .nothing else settleAll exec limit

/-- Carries out one command, with those that it gives rise to left to `exec`. -/
def step (exec : Command → Run Outcome) (limit : Nat) : Command → Run Outcome
  | .openChannel id => do
      modify (·.openChannel id)
      return .ok (.member id)
  | .send id action => do
      modify (·.openChannel id)
      match action with
      | .error error => return .error (.control error)
      | .ok action => send exec id action
  | .notify id notice => do
      modify (·.openChannel id)
      match notice with
      | .error error => return .error (.control error)
      | .ok notice => notify exec id notice
  | .subscribe id name respond => do
      modify fun session => (session.openChannel id).subscribe id ⟨name, respond⟩
      return .ok .nothing
  | .cancel name => do
      let (wasActive, session) := (← get).cancel name
      set session
      return .ok (.flag wasActive)
  | .setLevel level => do
      modify fun session => { session with logger := { session.logger with threshold := level } }
      return .ok .nothing
  | .install id transport => do
      modify (·.modifyChannel id fun channel => { channel with transport })
      return .ok .nothing
  | .drop id => do
      modify (·.drop id)
      return .ok .nothing
  | .receive index => do
      let result ← serve fun server => (server.receive index).map fun result => ((), result)
      return result.map fun _ => .nothing
  | .receiveAll => do
      let result ← serve Server.receiveAll
      return result.map .count
  | .deliver (some id) => deliverTo exec id
  | .deliver none => do
      match (← get).server.target? with
      | none => return .error (.request .noNotices)
      | some id => deliverTo exec id
  | .deliverAll => do
      let result ← deliverAll exec limit
      return result.map .count
  | .run => settleAll exec limit
  | .target => do return .ok (.target (← get).server.target?)
  | .queued id => do return .ok (.count ((← get).server.queue id).length)

/-- Carries out a command. The limit bounds how deep commands give rise to others, and how long each of
them goes on. -/
def exec : (limit : Nat) → Command → Run Outcome
  | 0, _ => failure
  | limit + 1, command => step (exec limit) limit command

/-- Carries out a command from outside, and gives what was observed meanwhile. -/
def perform (limit : Nat) (command : Command) (session : Session) :
    Option (Outcome × List Event × Session) :=
  match exec limit command { session with events := [] } with
  | none => none
  | some (outcome, next) =>
      some (outcome, next.events, { next with known := next.known.union next.server.members })

end Session

end GroupChat
