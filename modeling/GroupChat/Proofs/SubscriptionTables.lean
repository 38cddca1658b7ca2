import GroupChat.Proofs.ChannelRuns
import GroupChat.Proofs.Deliveries

/-!
# Subscriptions over time

A channel that is dropped while it publishes leaves its subscriptions to the deliveries that are under way.
Main statement: as long as the channel or such a delivery is there, nothing but subscribing adds to its
subscriptions, and nothing but cancelling takes any of them away.
-/

namespace GroupChat

namespace Subscriptions

variable {σ : Type} {subscriptions other : Subscriptions σ} {revoked : Nat → Bool}

/-- The subscriptions that are left once some keys have been revoked. -/
def without (subscriptions : Subscriptions σ) (revoked : Nat → Bool) : Subscriptions σ where
  nextKey := subscriptions.nextKey
  active := subscriptions.active.filter fun entry => !revoked entry.1
  increasing := subscriptions.increasing.filter _
  below := fun entry hentry => subscriptions.below entry (List.mem_filter.1 hentry).1

theorem eq_of_active (hkey : subscriptions.nextKey = other.nextKey)
    (hactive : subscriptions.active = other.active) : subscriptions = other := by
  cases subscriptions
  cases other
  cases hkey
  cases hactive
  rfl

theorem without_eq_self (hrevoked : ∀ key, revoked key = false) :
    subscriptions.without revoked = subscriptions :=
  eq_of_active rfl (List.filter_eq_self.2 fun entry _ => by rw [hrevoked, Bool.not_false])

theorem without_beq (key : Nat) : subscriptions.without (· == key) = subscriptions.cancel key :=
  eq_of_active rfl rfl

theorem isActive_iff_exists {key : Nat} :
    subscriptions.isActive key = true ↔ ∃ subscriber, (key, subscriber) ∈ subscriptions.active := by
  simp only [isActive, List.any_eq_true, beq_iff_eq, Prod.exists]
  constructor
  · rintro ⟨_, subscriber, hmem, rfl⟩
    exact ⟨subscriber, hmem⟩
  · rintro ⟨subscriber, hmem⟩
    exact ⟨key, subscriber, hmem, rfl⟩

theorem isActive_without (key : Nat) :
    (subscriptions.without revoked).isActive key = (subscriptions.isActive key && !revoked key) := by
  rw [Bool.eq_iff_iff, Bool.and_eq_true, isActive_iff_exists, isActive_iff_exists]
  simp only [without, List.mem_filter, exists_and_right]

end Subscriptions

namespace Server

/-- The subscriptions of a member's channel, if it has one. -/
def table? (server : Server) (id : MemberId) : Option (Subscriptions Subscriber) :=
  (server.channel? id).map Channel.subscriptions

/-- No channel has been dropped, and the subscriptions of all of them are the same. -/
def KeepsTables (server next : Server) : Prop :=
  ∀ id table, server.table? id = some table → next.table? id = some table

variable {server next : Server} {id : MemberId}

theorem table?_eq_none_iff : server.table? id = none ↔ server.channel? id = none := Option.map_eq_none_iff

theorem Retains.keepsTables (hretains : server.Retains next) : server.KeepsTables next := by
  intro id table htable
  obtain ⟨channel, hchannel, rfl⟩ := Option.map_eq_some_iff.1 htable
  rw [table?, hretains.channel? hchannel, Option.map_some]

theorem table?_openMailbox_of_ne {other : MemberId} (hne : other ≠ id) :
    (server.openMailbox id).table? other = server.table? other := by
  rw [table?, channel?, mailbox?_openMailbox, if_neg hne, table?, channel?]

theorem table?_modifyChannel (server : Server) (id other : MemberId) (change : Channel → Channel) :
    (server.modifyChannel id change).table? other =
      if other = id then (server.channel? id).map fun channel => (change channel).subscriptions
      else server.table? other := by
  rw [table?, channel?, modifyChannel, mailbox?_modifyMailbox]
  by_cases heq : other = id
  · rw [if_pos heq, if_pos heq, channel?, Option.map_map, Option.map_map, Option.map_map]
    rfl
  · rw [if_neg heq, if_neg heq, table?, channel?]

theorem table?_modifyChannel_of_same {change : Channel → Channel}
    (hchange : ∀ channel, server.channel? id = some channel →
      (change channel).subscriptions = channel.subscriptions) :
    (server.modifyChannel id change).table? = server.table? := by
  funext other
  rw [table?_modifyChannel]
  by_cases heq : other = id
  · rw [if_pos heq, heq, table?]
    exact Option.map_congr hchange
  · rw [if_neg heq]

/-- A channel that takes a notice keeps its subscriptions. -/
theorem table?_notify {channel heard : Channel} {notice : Notice} {line : Log.Line}
    (hchannel : server.channel? id = some channel)
    (hnotify : server.notify id channel notice = .ok (next, heard, line)) : next.table? = server.table? := by
  rw [eq_modifyChannel_of_notify hnotify]
  refine table?_modifyChannel_of_same fun other hother => ?_
  cases hchannel.symm.trans hother
  rfl

theorem isSome_table?_modifyChannel (server : Server) (id other : MemberId) (change : Channel → Channel) :
    ((server.modifyChannel id change).table? other).isSome = (server.table? other).isSome := by
  rw [table?_modifyChannel]
  by_cases heq : other = id
  · rw [if_pos heq, heq, table?, Option.isSome_map, Option.isSome_map]
  · rw [if_neg heq]

theorem table?_erase (server : Server) (id other : MemberId) :
    ({ server with mailboxes := server.mailboxes.erase id } : Server).table? other =
      if other = id then none else server.table? other := by
  rw [table?, channel?, mailbox?]
  dsimp only
  rw [Directory.get?_erase]
  by_cases heq : other = id
  · rw [if_pos heq, if_pos heq]
    rfl
  · rw [if_neg heq, if_neg heq, table?, channel?, mailbox?]

end Server

namespace Session

/-- Nothing that has to do with subscriptions has changed, but for channels that were made. -/
structure Keeps (session next : Session) : Prop where
  server : session.server.KeepsTables next.server
  handles : next.handles = session.handles
  publishing : next.publishing = session.publishing
  held : next.held = session.held

variable {session next : Session} {owner : MemberId}

theorem Retains.keeps (hretains : session.Retains next) : session.Keeps next :=
  ⟨hretains.server.keepsTables, hretains.handles, hretains.publishing, hretains.held⟩

theorem Keeps.refl (session : Session) : session.Keeps session := (Retains.refl session).keeps

theorem Keeps.of_table? {server : Server} (hsame : server.table? = session.server.table?)
    (lines : List Log.Line) : session.Keeps ({ session with server }.log lines) :=
  ⟨fun id _ htable => (congrFun hsame id).trans htable, rfl, rfl, rfl⟩

/-- A channel's subscriptions are still there: it exists, or it was dropped while it was publishing. -/
def Holds (session : Session) (owner : MemberId) : Prop :=
  session.channel? owner ≠ none ∨ owner ∈ session.publishing

variable {id : MemberId} {key : Nat}

theorem subscriptions?_eq (session : Session) (owner : MemberId) :
    session.subscriptions? owner = (session.server.table? owner).or (session.held.get? owner) := by
  have htable : session.server.table? owner = (session.channel? owner).map (·.subscriptions) := rfl
  rw [htable, subscriptions?]
  cases session.channel? owner <;> rfl

theorem Keeps.subscriptions? (hkeeps : session.Keeps next)
    (hstays : session.channel? owner = none → next.channel? owner = none) :
    next.subscriptions? owner = session.subscriptions? owner := by
  rw [subscriptions?_eq, subscriptions?_eq, hkeeps.held]
  congr 1
  cases htable : session.server.table? owner with
  | none => exact Server.table?_eq_none_iff.2 (hstays (Server.table?_eq_none_iff.1 htable))
  | some table => exact hkeeps.server owner table htable

theorem subscribe_openChannel (session : Session) (id : MemberId) (subscriber : Subscriber) :
    (session.openChannel id).subscribe id subscriber =
      { (session.openChannel id).modifyChannel id fun channel =>
          { channel with subscriptions := channel.subscriptions.add subscriber } with
        handles := session.handles.set subscriber.name
          (id, (session.server.mailbox id).channel.subscriptions.nextKey) } := by
  have hopen : (session.openChannel id).channel? id = some (session.server.mailbox id).channel :=
    session.server.channel?_openMailbox id
  rw [subscribe, hopen]
  rfl

/-- Who subscribes has a channel afterwards. -/
theorem channel?_subscribe_ne_none (session : Session) (id : MemberId) (subscriber : Subscriber) :
    ((session.openChannel id).subscribe id subscriber).channel? id ≠ none := by
  rw [subscribe_openChannel, channel?, modifyChannel, Server.channel?_modifyChannel]
  change ((session.server.openMailbox id).channel? id).map _ ≠ none
  rw [Server.channel?_openMailbox]
  exact Option.some_ne_none _

theorem subscriptions?_subscribe (session : Session) (id : MemberId) (subscriber : Subscriber)
    (hstays : session.channel? owner = none →
      ((session.openChannel id).subscribe id subscriber).channel? owner = none) :
    ((session.openChannel id).subscribe id subscriber).subscriptions? owner =
      if id = owner then (session.subscriptions? owner).map (·.add subscriber)
      else session.subscriptions? owner := by
  by_cases heq : id = owner
  · rw [if_pos heq]
    rw [heq] at hstays ⊢
    cases hchannel : session.channel? owner with
    | none => exact absurd (hstays hchannel) (channel?_subscribe_ne_none session owner subscriber)
    | some channel =>
        have htable : session.server.table? owner = some channel.subscriptions :=
          congrArg (Option.map Channel.subscriptions) hchannel
        have hopened : (session.server.openMailbox owner).channel? owner = some channel := by
          rw [Server.channel?_openMailbox, Server.channel_mailbox session.server owner hchannel]
        rw [subscriptions?_eq, subscriptions?_eq, htable, subscribe_openChannel, modifyChannel,
          Server.table?_modifyChannel, if_pos rfl]
        change (((session.server.openMailbox owner).channel? owner).map _).or _ = _
        rw [hopened]
        rfl
  · rw [if_neg heq, subscriptions?_eq, subscriptions?_eq, subscribe_openChannel, modifyChannel,
      Server.table?_modifyChannel, if_neg (Ne.symm heq)]
    exact congrArg (Option.or · _) (Server.table?_openMailbox_of_ne (Ne.symm heq))

theorem subscriptions?_unsubscribe (session : Session) (id : MemberId) (key : Nat) :
    (session.unsubscribe id key).subscriptions? owner =
      if owner = id then (session.subscriptions? owner).map (·.cancel key)
      else session.subscriptions? owner := by
  rw [subscriptions?_eq, subscriptions?_eq, unsubscribe]
  cases hchannel : session.channel? id with
  | some channel =>
      simp only [modifyChannel, Server.table?_modifyChannel]
      by_cases heq : owner = id
      · rw [if_pos heq, if_pos heq, heq, Server.table?]
        change Option.or (Option.map _ (session.channel? id)) _ =
          Option.map _ (Option.or (Option.map _ (session.channel? id)) _)
        rw [hchannel]
        rfl
      · rw [if_neg heq, if_neg heq]
  | none =>
      simp only [Directory.get?_modify]
      by_cases heq : owner = id
      · have htable : session.server.table? id = none := Server.table?_eq_none_iff.2 hchannel
        rw [if_pos heq, if_pos heq, heq, htable]
        rfl
      · rw [if_neg heq, if_neg heq]

theorem subscriptions?_drop (session : Session) (id : MemberId) :
    (session.drop id).subscriptions? owner =
      if owner = id ∧ (session.channel? id).isSome = true ∧ id ∉ session.publishing then none
      else session.subscriptions? owner := by
  rw [subscriptions?_eq, subscriptions?_eq, drop]
  dsimp only
  rw [Server.table?_erase]
  by_cases heq : owner = id
  · cases hchannel : session.channel? id with
    | none =>
        have htable : session.server.table? id = none := Server.table?_eq_none_iff.2 hchannel
        rw [if_pos heq, if_neg (fun h => Bool.false_ne_true h.2.1), heq, htable]
    | some channel =>
        have htable : session.server.table? id = some channel.subscriptions := by
          rw [Server.table?]
          exact congrArg (Option.map Channel.subscriptions) hchannel
        by_cases hpublishing : id ∈ session.publishing
        · rw [if_pos heq, if_neg (fun h => h.2.2 hpublishing), heq, htable]
          simp [hpublishing]
        · rw [if_pos heq, if_pos ⟨heq, rfl, hpublishing⟩]
          simp [hpublishing, heq, Directory.get?_erase]
  · rw [if_neg heq, if_neg (fun h => heq h.1)]
    congr 1
    split
    · split
      · rw [Directory.get?_set, if_neg heq]
      · rw [Directory.get?_erase, if_neg heq]
    · rfl

theorem subscriptions?_endPublishing (session : Session) (id : MemberId) :
    (session.endPublishing id).subscriptions? owner =
      if owner = id ∧ session.channel? id = none ∧ id ∉ session.publishing.tail then none
      else session.subscriptions? owner := by
  by_cases hpublishing : id ∈ session.publishing.tail
  · have hheld : (session.endPublishing id).held = session.held := by
      simp [endPublishing, hpublishing]
    rw [subscriptions?_eq, subscriptions?_eq, hheld, if_neg fun h => h.2.2 hpublishing]
    rfl
  · have hheld : (session.endPublishing id).held = session.held.erase id := by
      simp [endPublishing, hpublishing]
    have hserver : (session.endPublishing id).server = session.server := rfl
    rw [subscriptions?_eq, subscriptions?_eq, hheld, hserver, Directory.get?_erase]
    by_cases heq : owner = id
    · rw [heq, if_pos rfl, Server.table?]
      change Option.or (Option.map _ (session.channel? id)) _ =
        if _ then _ else Option.or (Option.map _ (session.channel? id)) _
      cases hchannel : session.channel? id with
      | none => rw [if_pos ⟨rfl, rfl, hpublishing⟩, Option.map_none, Option.or_none]
      | some channel => rw [if_neg fun h => Option.some_ne_none channel h.2.1, Option.map_some, Option.some_or,
          Option.some_or]
    · rw [if_neg heq, if_neg fun h => heq h.1]

end Session

/-- The owners of the channels whose deliveries are under way once a turn is over. -/
def Turn.owners : Turn → List MemberId → List MemberId
  | .begins delivery, owners => delivery.channel.owner :: owners
  | .ends _, owners => owners.tail
  | _, owners => owners

namespace Moment

variable {session : Session} {stack : List Frame} {command : Command}

/-- Who subscribes to a member's channel now. -/
def subscriber? (owner : MemberId) (moment : Moment) : Option Subscriber :=
  match moment.task with
  | .ask (.subscribe id name respond) => if id = owner then some ⟨name, respond⟩ else none
  | _ => none

/-- Whether this subscription to a member's channel is cancelled now. -/
def revokes (owner : MemberId) (key : Nat) (moment : Moment) : Bool :=
  match moment.task with
  | .ask (.cancel name) => moment.session.handles.get? name == some (owner, key)
  | _ => false

theorem task_of_revokes {moment : Moment} {owner : MemberId} {key : Nat} (hrevokes : moment.revokes owner key = true) :
    ∃ name, moment.task = .ask (.cancel name) := by
  obtain ⟨session, task, stack⟩ := moment
  cases task with
  | ask command =>
      cases command with
      | cancel name => exact ⟨name, rfl⟩
      | _ => cases hrevokes
  | _ => cases hrevokes

/-- All that a moment may do about subscriptions: somebody subscribes, is cancelled, or has its channel
dropped, a delivery begins or ends, or nothing is done. -/
inductive Concerns (moment : Moment) : Prop
  | subscribes {id name : MemberId} {respond : Respond} (htask : moment.task = .ask (.subscribe id name respond))
      (hnext : moment.next.session = (moment.session.openChannel id).subscribe id ⟨name, respond⟩)
  | cancels {name : MemberId} (htask : moment.task = .ask (.cancel name))
      (hnext : moment.next.session = (moment.session.cancel name).2)
  | drops {id : MemberId} (htask : moment.task = .ask (.drop id))
      (hnext : moment.next.session = moment.session.drop id)
  | begins {delivery : Delivery} {heard : Session} (hsubscriber : ∀ owner, moment.subscriber? owner = none)
      (hrevokes : ∀ owner key, moment.revokes owner key = false) (hturn : moment.turn = .begins delivery)
      (hkeeps : moment.session.Keeps heard)
      (hnext : moment.next.session = heard.beginPublishing delivery.channel.owner)
  | ends {id : MemberId} (hsubscriber : ∀ owner, moment.subscriber? owner = none)
      (hrevokes : ∀ owner key, moment.revokes owner key = false) (hturn : moment.turn = .ends id)
      (hnext : moment.next.session = moment.session.endPublishing id)
  | nothing (hsubscriber : ∀ owner, moment.subscriber? owner = none)
      (hrevokes : ∀ owner key, moment.revokes owner key = false)
      (hturn : moment.turn.owners = id) (hkeeps : moment.session.Keeps moment.next.session)

theorem concerns_hear (id : MemberId) (notice : Notice) (session : Session) (stack : List Frame) :
    Concerns ⟨session, .hear id notice, stack⟩ := by
  have hnothing : ∀ {later : Session} (outcome : Outcome),
      (⟨session, .hear id notice, stack⟩ : Moment).next = answer later stack outcome →
        session.Keeps later → Concerns ⟨session, .hear id notice, stack⟩ := by
    intro later outcome hnext hkeeps
    refine .nothing (fun _ => rfl) (fun _ _ => rfl) ?_ ?_
    · simp only [turn, hnext]
      rfl
    · rw [hnext]
      exact hkeeps
  cases hchannel : session.channel? id with
  | none =>
      refine hnothing (.ok (.flag false)) ?_ (.refl session)
      simp only [next, hear, hchannel]
  | some channel =>
      cases hnotify : session.server.notify id channel notice with
      | error failure =>
          refine hnothing (.error failure) ?_ (.refl session)
          simp only [next, hear, hchannel, hnotify]
      | ok result =>
          obtain ⟨server, heard, line⟩ := result
          have hkeeps : session.Keeps ({ session with server }.log [line]) :=
            .of_table? (Server.table?_notify hchannel hnotify) [line]
          by_cases hpublishes : heard.publishes notice = true
          · have hnext : (⟨session, .hear id notice, stack⟩ : Moment).next =
                ⟨({ session with server }.log [line]).beginPublishing heard.owner,
                  .publish heard notice heard.subscriptions.active false, stack⟩ := by
              simp only [next, hear, hchannel, hnotify, hpublishes, if_true]
            have hturn : turn ⟨session, .hear id notice, stack⟩ =
                .begins ⟨heard, notice, heard.subscriptions.active, false, false, stack⟩ := by
              simp only [turn, hnext]
              rfl
            exact .begins (fun _ => rfl) (fun _ _ => rfl) hturn hkeeps (congrArg Moment.session hnext)
          · refine hnothing (.ok (.flag false)) ?_ hkeeps
            simp only [next, hear, hchannel, hnotify, if_neg hpublishes]

theorem concerns_ask (command : Command) (session : Session) (stack : List Frame) :
    Concerns ⟨session, .ask command, stack⟩ := by
  cases command with
  | subscribe id name respond => exact .subscribes rfl rfl
  | cancel name => exact .cancels rfl rfl
  | drop id => exact .drops rfl rfl
  | install id transport =>
      have hsame : (session.server.modifyChannel id ({ · with transport })).table? = session.server.table? :=
        Server.table?_modifyChannel_of_same fun _ _ => rfl
      exact .nothing (fun _ => rfl) (fun _ _ => rfl) rfl
        ⟨fun other _ htable => (congrFun hsame other).trans htable, rfl, rfl, rfl⟩
  | _ => exact .nothing (fun _ => rfl) (fun _ _ => rfl) rfl (retains_ask (by trivial) session stack).keeps

/-- **One moment.** All that a moment does about subscriptions. -/
theorem concerns (moment : Moment) : Concerns moment := by
  obtain ⟨session, task, stack⟩ := moment
  cases task with
  | run program =>
      cases program with
      | perform command next => exact .nothing (fun _ => rfl) (fun _ _ => rfl) rfl (.refl session)
      | finish verdict =>
          refine .nothing (fun _ => rfl) (fun _ _ => rfl) ?_ (retains_takeVerdict verdict session stack).keeps
          simp only [turn]
          split
          · rfl
          · rfl
  | ask command => exact concerns_ask command session stack
  | hear id notice => exact concerns_hear id notice session stack
  | publish channel notice waiting handled =>
      cases waiting with
      | nil => exact .ends (fun _ => rfl) (fun _ _ => rfl) rfl rfl
      | cons entry waiting =>
          refine .nothing (fun _ => rfl) (fun _ _ => rfl) ?_
            (retains_publish_cons channel notice handled entry waiting session stack).keeps
          simp only [turn]
          split
          · rfl
          · rfl
  | deliver id => exact .nothing (fun _ => rfl) (fun _ _ => rfl) rfl (retains_deliver id session stack).keeps
  | drain received delivered =>
      exact .nothing (fun _ => rfl) (fun _ _ => rfl) rfl (retains_drain received delivered session stack).keeps
  | settle => exact .nothing (fun _ => rfl) (fun _ _ => rfl) rfl (receives_settle session stack).retains.keeps
  | answer outcome =>
      exact .nothing (fun _ => rfl) (fun _ _ => rfl) rfl (retains_takeOutcome outcome session stack).keeps

variable {moment : Moment} {owner : MemberId} {rest : List MemberId}

/-- The subscriptions to a member's channel, with the one that is made now. -/
def issues (owner : MemberId) (moment : Moment) (table : Subscriptions Subscriber) : Subscriptions Subscriber :=
  match moment.subscriber? owner with
  | some subscriber => table.add subscriber
  | none => table

/-- What subscribing and cancelling make of the subscriptions to a member's channel. -/
theorem subscriptions?_next
    (hstays : moment.session.channel? owner = none → moment.next.session.channel? owner = none)
    {table : Subscriptions Subscriber} (htable : moment.session.subscriptions? owner = some table)
    (hholds : moment.next.session.Holds owner) :
    moment.next.session.subscriptions? owner =
      some ((moment.issues owner table).without fun key => moment.revokes owner key) := by
  cases moment.concerns with
  | @subscribes id name respond htask hnext =>
      have hsubscriber : moment.subscriber? owner = if id = owner then some ⟨name, respond⟩ else none := by
        rw [subscriber?, htask]
      have hrevokes : ∀ key, moment.revokes owner key = false := fun key => by rw [revokes, htask]
      rw [hnext] at hstays ⊢
      rw [Session.subscriptions?_subscribe _ _ _ hstays, Subscriptions.without_eq_self hrevokes, issues,
        hsubscriber, htable]
      by_cases heq : id = owner
      · rw [if_pos heq, if_pos heq]
        rfl
      · rw [if_neg heq, if_neg heq]
  | @cancels name htask hnext =>
      have hissues : moment.issues owner table = table := by
        simp only [issues, subscriber?, htask]
      have hrevokes : ∀ key, moment.revokes owner key =
          (moment.session.handles.get? name == some (owner, key)) := fun key => by rw [revokes, htask]
      rw [hnext, hissues, funext hrevokes, Session.cancel]
      cases moment.session.handles.get? name with
      | none =>
          rw [htable]
          exact congrArg some (Subscriptions.without_eq_self fun _ => rfl).symm
      | some handle =>
          obtain ⟨id, key⟩ := handle
          dsimp only
          rw [Session.subscriptions?_unsubscribe, htable]
          by_cases heq : owner = id
          · have hsame : (fun other => (some (id, key) == some (owner, other) : Bool)) = (· == key) := by
              funext other
              rw [Bool.eq_iff_iff, beq_iff_eq, beq_iff_eq, heq]
              constructor
              · rintro ⟨⟩
                rfl
              · rintro rfl
                rfl
            rw [if_pos heq, hsame, Subscriptions.without_beq]
            rfl
          · rw [if_neg heq, Subscriptions.without_eq_self fun other => ?_]
            simp [Ne.symm heq]
  | @drops id htask hnext =>
      have hissues : moment.issues owner table = table := by
        simp only [issues, subscriber?, htask]
      have hrevokes : ∀ key, moment.revokes owner key = false := fun key => by rw [revokes, htask]
      rw [hnext] at hholds ⊢
      rw [hissues, Subscriptions.without_eq_self hrevokes, Session.subscriptions?_drop, if_neg, htable]
      rintro ⟨rfl, -, hpublishing⟩
      refine hholds.elim (fun hopen => hopen (Server.table?_eq_none_iff.1 ?_)) hpublishing
      rw [Session.drop, Server.table?_erase, if_pos rfl]
  | begins hsubscriber hrevokes hturn hkeeps hnext =>
      rw [hnext] at hstays ⊢
      rw [issues, hsubscriber, Subscriptions.without_eq_self (hrevokes owner)]
      exact (hkeeps.subscriptions? hstays).trans htable
  | ends hsubscriber hrevokes hturn hnext =>
      rw [hnext] at hholds ⊢
      rw [issues, hsubscriber, Subscriptions.without_eq_self (hrevokes owner),
        Session.subscriptions?_endPublishing, if_neg, htable]
      rintro ⟨rfl, hclosed, hpublishing⟩
      exact hholds.elim (fun hopen => hopen hclosed) hpublishing
  | nothing hsubscriber hrevokes hturn hkeeps =>
      rw [issues, hsubscriber, Subscriptions.without_eq_self (hrevokes owner), hkeeps.subscriptions? hstays,
        htable]

theorem publishing_next (moment : Moment) :
    moment.next.session.publishing = moment.turn.owners moment.session.publishing := by
  cases moment.concerns with
  | subscribes htask hnext =>
      rw [hnext, turn, htask, Session.subscribe_openChannel]
      rfl
  | cancels htask hnext =>
      rw [hnext, turn, htask, Session.cancel]
      split
      · rfl
      · unfold Session.unsubscribe
        split
        · rfl
        · rfl
  | drops htask hnext =>
      rw [hnext, turn, htask]
      rfl
  | begins hsubscriber hrevokes hturn hkeeps hnext =>
      rw [hnext, hturn]
      exact congrArg (_ :: ·) hkeeps.publishing
  | ends hsubscriber hrevokes hturn hnext =>
      rw [hnext, hturn]
      rfl
  | nothing hsubscriber hrevokes hturn hkeeps =>
      rw [hturn]
      exact hkeeps.publishing

/-- The channels that are publishing are those whose deliveries are under way. -/
theorem publishing_after
    (hpublishing : moment.session.publishing = moment.deliveries.map (·.channel.owner) ++ rest) (count : Nat) :
    (moment.after count).session.publishing =
      (moment.after count).deliveries.map (·.channel.owner) ++ rest := by
  induction count with
  | zero => exact hpublishing
  | succ count ih =>
      have htakes := (moment.after count).takes_turn
      rw [after, publishing_next, deliveries_next]
      generalize (moment.after count).turn = turn at htakes
      cases htakes with
      | begins => exact congrArg (_ :: ·) ih
      | calls htask =>
          rw [ih, deliveries_of_publish htask]
          rfl
      | skips htask =>
          rw [ih, deliveries_of_publish htask]
          rfl
      | answers htask hstack =>
          rw [ih, deliveries, htask, hstack]
          rfl
      | ends htask =>
          rw [ih, deliveries_of_publish htask]
          rfl
      | rests => exact ih

/-- The subscriptions of a channel are still there while it publishes, even if it was dropped. -/
theorem holds_of_mem_begun
    (hpublishing : moment.session.publishing = moment.deliveries.map (·.channel.owner) ++ rest)
    {since count : Nat} {delivery : Delivery} (hturn : (moment.after since).turn = .begins delivery)
    (hmem : since ∈ moment.begun count) : (moment.after count).session.Holds delivery.channel.owner := by
  obtain ⟨other, hother, hunder⟩ := exists_delivery_of_mem hmem
  have hsame := Turn.begins.inj (hturn.symm.trans hunder.began)
  refine .inr ?_
  rw [publishing_after hpublishing count, hsame]
  exact List.mem_append_left rest (List.mem_map.2 ⟨other, hother, rfl⟩)

/-- A channel is there until it is dropped. -/
theorem isSome_table?_next (hdrops : moment.drops owner = false)
    (hsome : (moment.session.server.table? owner).isSome = true) :
    (moment.next.session.server.table? owner).isSome = true := by
  have hkept : ∀ {server : Server}, moment.session.server.KeepsTables server →
      (server.table? owner).isSome = true := by
    intro server hkeeps
    obtain ⟨table, htable⟩ := Option.isSome_iff_exists.1 hsome
    rw [hkeeps owner table htable]
    rfl
  cases moment.concerns with
  | @subscribes id name respond htask hnext =>
      rw [hnext, Session.subscribe_openChannel]
      exact (Server.isSome_table?_modifyChannel _ _ _ _).trans
        (hkept (Server.retains_openMailbox moment.session.server id).keepsTables)
  | cancels htask hnext =>
      rw [hnext, Session.cancel]
      split
      · exact hsome
      · unfold Session.unsubscribe
        split
        · exact (Server.isSome_table?_modifyChannel _ _ _ _).trans hsome
        · exact hsome
  | @drops id htask hnext =>
      have hne : owner ≠ id := by
        rintro rfl
        rw [Moment.drops, htask] at hdrops
        exact Bool.false_ne_true (hdrops.symm.trans (beq_self_eq_true owner))
      rw [hnext, Session.drop, Server.table?_erase, if_neg hne]
      exact hsome
  | begins hsubscriber hrevokes hturn hkeeps hnext =>
      rw [hnext]
      exact hkept hkeeps.server
  | ends hsubscriber hrevokes hturn hnext =>
      rw [hnext]
      exact hsome
  | nothing hsubscriber hrevokes hturn hkeeps => exact hkept hkeeps.server

/-- Whether this subscription to a member's channel has been cancelled so many moments later. -/
def revoked (owner : MemberId) (key : Nat) (moment : Moment) : (count : Nat) → Bool
  | 0 => false
  | count + 1 => moment.revoked owner key count || (moment.after count).revokes owner key

theorem revoked_iff_exists {key count : Nat} :
    moment.revoked owner key count = true ↔
      ∃ earlier < count, (moment.after earlier).revokes owner key = true := by
  induction count with
  | zero => exact iff_of_false Bool.false_ne_true fun ⟨_, hlt, _⟩ => Nat.not_lt_zero _ hlt
  | succ count ih =>
      rw [revoked, Bool.or_eq_true, ih]
      constructor
      · rintro (⟨earlier, hlt, hrevokes⟩ | hrevokes)
        · exact ⟨earlier, Nat.lt_succ_of_lt hlt, hrevokes⟩
        · exact ⟨count, Nat.lt_succ_self count, hrevokes⟩
      · rintro ⟨earlier, hlt, hrevokes⟩
        rcases Nat.lt_succ_iff_lt_or_eq.1 hlt with hlt | rfl
        · exact .inl ⟨earlier, hlt, hrevokes⟩
        · exact .inr hrevokes

/-- Once it has been dropped, a member's channel is not made again until then. -/
def StaysDropped (owner : MemberId) (moment : Moment) (count : Nat) : Prop :=
  ∀ earlier < count, (moment.after earlier).session.channel? owner = none →
    (moment.after (earlier + 1)).session.channel? owner = none

instance {count : Nat} : Decidable (moment.StaysDropped owner count) :=
  inferInstanceAs (Decidable (∀ earlier < count, (moment.after earlier).session.channel? owner = none →
    (moment.after (earlier + 1)).session.channel? owner = none))

/-- A channel that is never dropped stays dropped, as far as that goes. -/
theorem staysDropped_of_drops {count : Nat} (hsome : (moment.session.server.table? owner).isSome = true)
    (hdrops : ∀ earlier < count, (moment.after earlier).drops owner = false) :
    moment.StaysDropped owner count := by
  have hopen : ∀ earlier ≤ count, ((moment.after earlier).session.server.table? owner).isSome = true := by
    intro earlier
    induction earlier with
    | zero => exact fun _ => hsome
    | succ earlier ih =>
        exact fun hlt => isSome_table?_next (hdrops earlier hlt) (ih (Nat.le_of_succ_le hlt))
  intro earlier hlt hclosed
  have hsome' := hopen earlier (Nat.le_of_lt hlt)
  rw [Server.table?_eq_none_iff.2 hclosed] at hsome'
  cases hsome'

theorem StaysDropped.of_le {count later : Nat} (hstays : moment.StaysDropped owner later)
    (hle : count ≤ later) : moment.StaysDropped owner count :=
  fun earlier hlt => hstays earlier (Nat.lt_of_lt_of_le hlt hle)

theorem isActive_issues {table : Subscriptions Subscriber} {key : Nat} (hkey : key < table.nextKey) :
    (moment.issues owner table).isActive key = table.isActive key := by
  rw [issues]
  cases moment.subscriber? owner with
  | none => rfl
  | some subscriber =>
      have hne : (key == table.nextKey) = false := beq_false_of_ne (Nat.ne_of_lt hkey)
      rw [Subscriptions.isActive_add, hne, Bool.or_false]

theorem nextKey_le_issues (table : Subscriptions Subscriber) :
    table.nextKey ≤ (moment.issues owner table).nextKey := by
  rw [issues]
  cases moment.subscriber? owner with
  | none => exact Nat.le_refl _
  | some subscriber => exact Nat.le_succ _

/-- Whoever was subscribed stays so until it is cancelled. -/
theorem isActive_after {table : Subscriptions Subscriber} {count : Nat}
    (hstays : moment.StaysDropped owner count)
    (htable : moment.session.subscriptions? owner = some table)
    (hholds : ∀ between, 0 < between → between ≤ count → (moment.after between).session.Holds owner) :
    ∃ later, (moment.after count).session.subscriptions? owner = some later ∧
      table.nextKey ≤ later.nextKey ∧
      ∀ key < table.nextKey, later.isActive key = (table.isActive key && !moment.revoked owner key count) := by
  induction count with
  | zero =>
      refine ⟨table, htable, Nat.le_refl _, fun key _ => ?_⟩
      rw [revoked, Bool.not_false, Bool.and_true]
  | succ count ih =>
      obtain ⟨earlier, hearlier, hnextKey, hactive⟩ := ih (hstays.of_le (Nat.le_succ count))
        fun between hpos hle => hholds between hpos (Nat.le_succ_of_le hle)
      refine ⟨_, subscriptions?_next (hstays count (Nat.lt_succ_self count)) hearlier
        (hholds (count + 1) (Nat.succ_pos count) (Nat.le_refl _)), ?_, fun key hkey => ?_⟩
      · exact Nat.le_trans hnextKey (nextKey_le_issues earlier)
      · rw [Subscriptions.isActive_without, isActive_issues (Nat.lt_of_lt_of_le hkey hnextKey),
          hactive key hkey, revoked, Bool.not_or, Bool.and_assoc]

end Moment

end GroupChat
