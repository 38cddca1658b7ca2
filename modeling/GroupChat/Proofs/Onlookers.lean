import GroupChat.Proofs.Backlog
import GroupChat.Proofs.Commutation
import GroupChat.Session.Exec

/-!
# Subscribers that only look on

Sessions whose subscribers ask for nothing that concerns the server or its channels. There processing
and delivering always come to an end. They are moves of the server and nothing else, and subscribers are
called exactly with what these moves show.
-/

namespace GroupChat

/-- Whether a command leaves the server and its channels alone. -/
def Command.IsIdle : Command → Prop
  | .setLevel _ | .target | .queued _ => True
  | _ => False

def Program.IsIdle : Program → Prop
  | .finish _ => True
  | .perform command next => command.IsIdle ∧ ∀ outcome, (next outcome).IsIdle

def Subscriber.IsIdle (subscriber : Subscriber) : Prop :=
  ∀ earlier notice standing, (subscriber.respond earlier notice standing).IsIdle

/-- The notice that a subscriber is called with, and what the owner of its channel sees then. -/
def Event.sight? : Event → Option (MemberId × Notice × Standing)
  | .notice name seen standing => some (name, seen, standing)
  | _ => none

/-- What subscribers were called with. -/
def sights (events : List Event) : List (MemberId × Notice × Standing) :=
  events.filterMap (·.sight?)

theorem sights_append (first second : List Event) :
    sights (first ++ second) = sights first ++ sights second :=
  List.filterMap_append

theorem sights_map_log (lines : List Log.Line) : sights (lines.map .log) = [] :=
  List.filterMap_eq_nil_iff.2 fun event hmem => by
    obtain ⟨line, -, rfl⟩ := List.mem_map.1 hmem
    rfl

def Showing.sight (showing : Showing) : MemberId × Notice × Standing :=
  (showing.name, showing.notice, showing.standing)

namespace Server

/-- All subscribers only look on. -/
def Watched (server : Server) : Prop :=
  ∀ id, ∀ entry ∈ (server.mailbox id).channel.subscriptions.active, entry.2.IsIdle

variable {server : Server}

/-- Whoever a move subscribes only looks on. -/
def Move.IsWatched : Move → Prop
  | .subscribe _ subscriber => subscriber.IsIdle
  | _ => True

theorem Move.IsTurn.isWatched {move : Move} (hmove : move.IsTurn) : move.IsWatched := by
  cases move with
  | subscribe id subscriber => exact hmove.elim
  | _ => trivial

theorem Watched.step (hwatched : server.Watched) {move : Move} (hmove : move.IsWatched) :
    (server.step move).1.Watched := by
  intro id entry hentry
  rcases mem_active_step hentry with hearlier | rfl
  · exact hwatched id entry hearlier
  · exact hmove

theorem watched_empty : Watched {} := fun _ _ hentry => absurd hentry List.not_mem_nil

theorem Watched.run (hwatched : server.Watched) {moves : List Move}
    (hmoves : ∀ move ∈ moves, move.IsWatched) : (server.run moves).Watched := by
  induction moves generalizing server with
  | nil => exact hwatched
  | cons move rest ih =>
      exact ih (hwatched.step (hmoves move List.mem_cons_self))
        fun other hother => hmoves other (List.mem_cons_of_mem _ hother)

theorem Owned.run (howned : server.Owned) (moves : List Move) : (server.run moves).Owned := by
  induction moves generalizing server with
  | nil => exact howned
  | cons move rest ih => exact ih (howned.step move)

theorem Owned.modifyChannel (howned : server.Owned) {id : MemberId} {change : Channel → Channel}
    (hchange : (change (server.mailbox id).channel).owner = id) :
    (server.modifyChannel id change).Owned := by
  intro other
  unfold Server.modifyChannel
  cases hmailbox : server.mailbox? id with
  | none =>
      rw [modifyMailbox_of_eq_none server id hmailbox]
      exact howned other
  | some mailbox =>
      rw [mailbox_modifyMailbox server id hmailbox]
      by_cases heq : other = id
      · rw [heq, Function.update_self, ← mailbox_of_mailbox? server id hmailbox]
        exact hchange
      · rw [Function.update_of_ne heq]
        exact howned other

theorem Evolves.owned {record : List Occurrence} (hevolves : Evolves {} record server) :
    server.Owned := by
  induction hevolves with
  | refl => exact fun _ => rfl
  | move hbefore move ih => exact ih.step move
  | @notify record server next id channel heard notice line hbefore hchannel hnotify ih =>
      have howner := ih id
      rw [channel_mailbox server id hchannel] at howner
      rw [eq_modifyChannel_of_notify hnotify]
      exact ih.modifyChannel howner
  | install hbefore id transport ih => exact ih.modifyChannel (ih id)

end Server

namespace Session

/-- A run finishes, and what it finishes with meets the condition. -/
def Ends {α : Type} (session : Session) (run : Run α) (goal : α → Session → Prop) : Prop :=
  ∃ value next, run session = some (value, next) ∧ goal value next

namespace Ends

variable {α β : Type} {session : Session} {run : Run α} {rest : α → Run β}
  {goal goal' : α → Session → Prop} {goal'' : β → Session → Prop}

theorem pure {value : α} (hgoal : goal value session) : session.Ends (pure value : Run α) goal :=
  ⟨value, session, rfl, hgoal⟩

theorem bind (hrun : session.Ends run goal)
    (hrest : ∀ value next, goal value next → next.Ends (rest value) goal'') :
    session.Ends (run >>= rest) goal'' := by
  obtain ⟨value, next, hvalue, hgoal⟩ := hrun
  obtain ⟨result, final, hresult, hgoal''⟩ := hrest value next hgoal
  refine ⟨result, final, ?_, hgoal''⟩
  change (run session).bind (fun pair => rest pair.1 pair.2) = some (result, final)
  rw [hvalue]
  exact hresult

theorem get {rest : Session → Run β} (hrest : session.Ends (rest session) goal'') :
    session.Ends (get >>= rest) goal'' :=
  hrest

theorem set {next : Session} {rest : Unit → Run β} (hrest : next.Ends (rest ()) goal'') :
    session.Ends (set next >>= rest) goal'' :=
  hrest

theorem modify {change : Session → Session} {rest : Unit → Run β}
    (hrest : (change session).Ends (rest ()) goal'') :
    session.Ends (modify change >>= rest) goal'' :=
  hrest

theorem mono (hrun : session.Ends run goal)
    (hgoal : ∀ value next, goal value next → goal' value next) : session.Ends run goal' := by
  obtain ⟨value, next, hvalue, hnext⟩ := hrun
  exact ⟨value, next, hvalue, hgoal value next hnext⟩

end Ends

/-- The server is as it was, but some more notices were shown. -/
structure Shows (session : Session) (shown : List (MemberId × Notice × Standing)) (next : Session) :
    Prop where
  server : next.server = session.server
  sights : GroupChat.sights next.events = GroupChat.sights session.events ++ shown

/-- The server has made some moves, and what these show was shown. -/
structure Turns (session : Session) (moves : List Server.Move) (next : Session) : Prop where
  server : next.server = session.server.run moves
  sights : GroupChat.sights next.events = GroupChat.sights session.events ++
    (session.server.showings moves).map Showing.sight

/-- Idle commands are carried out, and do nothing. -/
def Calm (exec : Command → Run Outcome) : Prop :=
  ∀ command, command.IsIdle → ∀ session : Session,
    session.Ends (exec command) fun _ next => session.Shows [] next

variable {session next final : Session} {shown shown' : List (MemberId × Notice × Standing)}
  {exec : Command → Run Outcome}

theorem Shows.refl (session : Session) : session.Shows [] session :=
  ⟨rfl, (List.append_nil _).symm⟩

theorem Shows.trans (hfirst : session.Shows shown next) (hsecond : next.Shows shown' final) :
    session.Shows (shown ++ shown') final :=
  ⟨hsecond.server.trans hfirst.server,
    by rw [hsecond.sights, hfirst.sights, List.append_assoc]⟩

theorem Shows.log (session : Session) (lines : List Log.Line) :
    session.Shows [] (session.log lines) :=
  ⟨rfl, by rw [Session.log, sights_append, sights_map_log]⟩

theorem Turns.refl (session : Session) : session.Turns [] session :=
  ⟨rfl, (List.append_nil _).symm⟩

theorem Turns.trans {moves moves' : List Server.Move} (hfirst : session.Turns moves next)
    (hsecond : next.Turns moves' final) : session.Turns (moves ++ moves') final := by
  constructor
  · rw [hsecond.server, hfirst.server, Server.run_append]
  · rw [hsecond.sights, hfirst.sights, hfirst.server, Server.showings_append, List.map_append,
      List.append_assoc]

theorem exec_calm (limit : Nat) : Calm (Session.exec (limit + 1)) := by
  intro command hcommand session
  cases command with
  | setLevel level => exact .modify (.pure ⟨rfl, (List.append_nil _).symm⟩)
  | target => exact .get (.pure (.refl session))
  | queued id => exact .get (.pure (.refl session))
  | _ => exact hcommand.elim

theorem program_ends (hexec : Calm exec) (program : Program) (hprogram : program.IsIdle)
    (session : Session) : session.Ends (program.run exec) fun _ next => session.Shows [] next := by
  induction program using Program.rec
    (motive_1 := fun _ => True) (motive_3 := fun _ => True) generalizing session with
  | finish verdict => exact .pure (.refl session)
  | perform command next _ ih =>
      simp only [Program.run]
      refine .bind (hexec command hprogram.1 session) fun outcome later hlater => ?_
      cases outcome with
      | error failure =>
          exact (ih _ (hprogram.2 _) later).mono fun _ _ hfinal => hlater.trans hfinal
      | ok value =>
          refine .modify ((ih _ (hprogram.2 _) _).mono fun _ _ hfinal => ?_)
          refine hlater.trans (⟨hfinal.server, hfinal.sights.trans ?_⟩ : later.Shows [] _)
          rw [record, sights_append]
          exact congrArg (· ++ []) (List.append_nil _)
  | _ => trivial

theorem call_ends (hexec : Calm exec) (id : MemberId) (notice : Notice) {subscriber : Subscriber}
    (hsubscriber : subscriber.IsIdle) (session : Session) :
    session.Ends (call exec id notice subscriber) fun _ next =>
      session.Shows [(subscriber.name, notice, session.standing id)] next := by
  refine .get (.set ((program_ends hexec _ (hsubscriber _ _ _) _).mono fun _ next hnext => ?_))
  have hcalled : session.Shows [(subscriber.name, notice, session.standing id)]
      ((session.record (.notice subscriber.name notice (session.standing id))).countCall
        subscriber.name) := ⟨rfl, sights_append _ _⟩
  exact hcalled.trans hnext

/-- Everybody who is still subscribed is called, in turn. -/
theorem callAll_ends (hexec : Calm exec) (channel : Channel) (notice : Notice)
    {subscribers : List (Nat × Subscriber)} (hsubscribers : ∀ entry ∈ subscribers, entry.2.IsIdle)
    (session : Session) {current : Channel} (hcurrent : session.channel? channel.owner = some current)
    (hactive : ∀ entry ∈ subscribers, current.subscriptions.isActive entry.1 = true) :
    session.Ends (callAll exec channel notice subscribers) fun _ next =>
      session.Shows (subscribers.map fun entry =>
        (entry.2.name, notice, session.standing channel.owner)) next := by
  induction subscribers generalizing session with
  | nil => exact .pure (.refl session)
  | cons entry rest ih =>
      have hentry : entry.2.IsIdle := hsubscribers entry List.mem_cons_self
      have hlater : ∀ {shown later}, session.Shows shown later →
          later.Ends (callAll exec channel notice rest) fun _ next =>
            session.Shows (shown ++ rest.map fun entry =>
              (entry.2.name, notice, session.standing channel.owner)) next := by
        intro shown later hshows
        have hsame : later.server = session.server := hshows.server
        have hothers : ∀ other ∈ rest, other.2.IsIdle := fun other hother =>
          hsubscribers other (List.mem_cons_of_mem _ hother)
        have hrest := ih hothers later (by rw [channel?, hsame]; exact hcurrent)
          fun other hother => hactive other (List.mem_cons_of_mem _ hother)
        rw [standing, channel?, hsame] at hrest
        exact hrest.mono fun _ _ hfinal => hshows.trans hfinal
      have hsubscribed : session.isSubscribed channel.owner entry.1 = true := by
        rw [isSubscribed, subscriptions?, hcurrent]
        exact hactive entry List.mem_cons_self
      simp only [callAll]
      refine .get ?_
      rw [if_pos hsubscribed]
      refine .bind (call_ends hexec _ _ hentry session) fun verdict later hcalled => ?_
      cases verdict with
      | ok handled => exact .bind (hlater hcalled) fun _ _ hfinal => .pure hfinal
      | error text => exact .modify (hlater (hcalled.trans (.log later _)))

theorem publish_ends (hexec : Calm exec) {channel : Channel}
    (hchannel : session.channel? channel.owner = some channel)
    (hidle : ∀ entry ∈ channel.subscriptions.active, entry.2.IsIdle) (notice : Notice) :
    session.Ends (publish exec channel notice) fun _ next =>
      session.Shows (if channel.publishes notice then
        channel.subscriptions.active.map fun entry => (entry.2.name, notice, channel.standing)
      else []) next := by
  have hactive : ∀ entry ∈ channel.subscriptions.active,
      channel.subscriptions.isActive entry.1 = true :=
    fun entry hentry => List.any_eq_true.2 ⟨entry, hentry, beq_self_eq_true _⟩
  have hstanding : session.standing channel.owner = channel.standing := by
    rw [standing, hchannel, Option.bind_some]
  unfold publish
  split
  · have hcalls := callAll_ends hexec channel notice hidle (session.beginPublishing channel.owner)
      hchannel hactive
    change session.standing channel.owner = channel.standing at hstanding
    refine .modify (.bind hcalls fun _ _ hnext => .modify (.pure ⟨hnext.server, ?_⟩))
    rw [← hstanding]
    exact hnext.sights
  · exact .pure (.refl session)

/-- A notice that arrives is shown to all subscribers of the channel, unless the channel refuses it. -/
theorem notify_ends (hexec : Calm exec) (session : Session) {channel : Channel}
    (hchannel : session.channel? channel.owner = some channel)
    (hidle : ∀ entry ∈ channel.subscriptions.active, entry.2.IsIdle) (notice : Notice) :
    session.Ends (notify exec channel.owner notice) fun _ next =>
      next.server =
          (match session.server.notify channel.owner channel notice with
          | .ok (server, _, _) => server
          | .error _ => session.server) ∧
        sights next.events = sights session.events ++ (channel.shows notice).map Showing.sight := by
  unfold Channel.shows Server.notify
  rcases channel.absorb_cases notice with ⟨line, hok⟩ | ⟨failure, herror, -⟩
  · generalize hheard : { channel with standing := notice.landing channel.owner channel.standing } =
      heard at hok
    have howner : heard.owner = channel.owner := by rw [← hheard]
    have hactive : heard.subscriptions.active = channel.subscriptions.active := by rw [← hheard]
    have hnotify : session.server.notify channel.owner channel notice =
        .ok (session.server.modifyChannel channel.owner fun _ => heard, heard, line) := by
      rw [Server.notify, hok]
      rfl
    rw [hok, Ends, notify_eq session hchannel hnotify]
    generalize hlater : Session.log _ [line] = later
    have hserver : later.server = session.server.modifyChannel channel.owner fun _ => heard := by
      rw [← hlater]
      rfl
    have hpublic : later.channel? heard.owner = some heard := by
      rw [howner, Session.channel?, hserver, Server.channel?_modifyChannel, ← Session.channel?,
        hchannel]
      rfl
    have hpublish := publish_ends hexec hpublic (hactive ▸ hidle) notice
    refine hpublish.mono fun _ next hnext => ⟨hnext.server.trans hserver, ?_⟩
    have hlog : sights later.events = sights session.events := by
      rw [← hlater]
      exact (Shows.log _ _).sights.trans (List.append_nil _)
    rw [hnext.sights, hlog]
    dsimp only
    split
    · rw [List.map_map]
      rfl
    · rfl
  · have hnotify : session.server.notify channel.owner channel notice = .error failure := by
      rw [Server.notify, herror]
      rfl
    have hrun : notify exec channel.owner notice session = some (.error failure, session) := by
      simp only [notify, bind, StateT.bind, get, getThe, MonadStateOf.get, StateT.get, pure,
        Option.bind_some, hchannel, hnotify]
      rfl
    rw [herror]
    exact ⟨_, _, hrun, rfl, (List.append_nil _).symm⟩

/-- Delivering to a member is one move of the server. -/
theorem deliverTo_ends (hexec : Calm exec) (howned : session.server.Owned)
    (hwatched : session.server.Watched) (id : MemberId) :
    session.Ends (deliverTo exec id) fun _ next => session.Turns [.deliver id] next := by
  have hshowings : session.server.showings [.deliver id] = (session.server.mailbox id).shows :=
    List.append_nil _
  have howner := howned id
  have hidle := hwatched id
  refine .get ?_
  cases hqueue : session.server.queue id with
  | nil =>
      obtain ⟨error, herror⟩ := Server.takeNotice_of_queue_eq_nil hqueue
      rw [herror]
      refine .pure ⟨?_, ?_⟩
      · rw [Server.run, Server.step_deliver_of_queue_eq_nil hqueue, Server.run]
      · rw [Server.queue_eq] at hqueue
        rw [hshowings, Mailbox.shows, hqueue]
        exact (List.append_nil _).symm
  | cons notice rest =>
      have htake := Server.takeNotice_of_queue_eq_cons hqueue
      have htaken? := Server.mailbox?_of_queue_taken hqueue
      generalize session.server.modifyMailbox id (fun mailbox => { mailbox with queue := rest }) =
        taken at htake htaken?
      have hmailbox : (taken.mailbox id).channel = (session.server.mailbox id).channel := by
        rw [Server.mailbox_of_mailbox? taken id htaken?]
      have hchannel : taken.channel? id = some (session.server.mailbox id).channel := by
        rw [Server.channel?, htaken?, Option.map_some]
      rw [Server.queue_eq] at hqueue
      rw [Mailbox.shows, hqueue] at hshowings
      rw [htake]
      generalize (session.server.mailbox id).channel = channel at *
      subst howner
      have hnotify := notify_ends hexec { session with server := taken } hchannel hidle notice
      refine .set (hnotify.mono fun _ next hnext => ⟨?_, ?_⟩)
      · simp only [hnext.1, Server.run, Server.step, htake, hmailbox]
        cases taken.notify channel.owner channel notice <;> rfl
      · rw [hnext.2, hshowings]

theorem deliverAll_ends (hexec : Calm exec) {limit : Nat} (howned : session.server.Owned)
    (hwatched : session.server.Watched) (hlimit : session.server.backlog < limit) :
    session.Ends (deliverAll exec limit) fun _ next =>
      ∃ ids : List MemberId, session.Turns (ids.map .deliver) next := by
  induction limit generalizing session with
  | zero => exact absurd hlimit (Nat.not_lt_zero _)
  | succ limit ih =>
      simp only [deliverAll]
      refine .get ?_
      split
      · exact .pure ⟨[], .refl session⟩
      · rename_i id htarget
        have hbacklog := Server.backlog_step_deliver (Server.queue_of_target? htarget)
        refine .bind (deliverTo_ends hexec howned hwatched id) fun outcome next hnext => ?_
        have hserver : next.server = (session.server.step (.deliver id)).1 := hnext.server
        cases outcome with
        | error failure => exact .pure ⟨[id], hnext⟩
        | ok value =>
            have hrest := ih (hserver ▸ howned.step (.deliver id))
              (hserver ▸ hwatched.step trivial) (by rw [hserver]; omega)
            refine .bind hrest fun _ final hfinal => ?_
            obtain ⟨ids, hids⟩ := hfinal
            exact .pure ⟨id :: ids, hnext.trans hids⟩

theorem receive_ends (limit : Nat) (session : Session) (index : Nat) :
    session.Ends (Session.exec (limit + 1) (.receive index)) fun _ next =>
      session.Turns [.receive index] next := by
  have hserve : session.Ends
      (serve fun server => (server.receive index).map fun result => ((), result))
      fun _ next => session.Turns [.receive index] next := by
    refine .get ?_
    dsimp only
    rcases session.server.receive_cases index with
      ⟨error, herror⟩ | ⟨packet, entries, lines, -, hok, -⟩
    · rw [herror]
      refine .pure ⟨?_, (List.append_nil _).symm⟩
      simp only [Server.run, Server.step, herror]
    · rw [hok]
      refine .set (.pure ⟨?_, (Shows.log _ lines).sights⟩)
      simp only [Server.run, Server.step, hok]
      rfl
  exact .bind hserve fun _ _ hnext => .pure hnext

end Session

end GroupChat
