import GroupChat.Proofs.Commutation
import GroupChat.Proofs.Retention
import GroupChat.Proofs.Session

/-!
# What a channel sees of the membership

Only a control that a channel takes changes what its owner sees. Main statement: at every moment of every
session on a channel, whatever its subscribers and its transport do, the owner is outside or sees a
membership that it belongs to, and this is what the controls that were taken so far lead to.
-/

namespace GroupChat

/-- What a control does to what an owner sees, wherever it fits. -/
def Control.effect (owner : MemberId) (standing : Standing) : Control → Standing
  | .selfEnter => some (OrderedSet.singleton owner)
  | .selfLeave => none
  | .delta change => standing.map fun members => (members.sdiff change.leave).union change.enter

/-- A control fits what an owner sees: it enters from outside, leaves from inside, and a delta brings in only
who is outside, and takes out only others who are there. -/
def Control.Fits (owner : MemberId) (standing : Standing) : Control → Prop
  | .selfEnter => standing = none
  | .selfLeave => standing ≠ none
  | .delta change =>
      ∃ members, standing = some members ∧ (∀ id ∈ change.enter, id ∉ members) ∧
        (∀ id ∈ change.leave, id ∈ members) ∧ owner ∉ change.leave

namespace Control

variable {change : Control} {owner : MemberId} {standing next : Standing}

theorem apply_delta_cases (change : Delta) (owner : MemberId) (members : MemberSet) :
    ((Control.delta change).Fits owner (some members) ∧
      (Control.delta change).apply owner (some members) =
        .ok ((Control.delta change).effect owner (some members))) ∨
      ¬(Control.delta change).Fits owner (some members) ∧
        ∃ error, (Control.delta change).apply owner (some members) = .error (.state error) := by
  -- The halves of a delta are disjoint, so that nothing but its checks can fail.
  simp only [apply, OrderedSet.patch, change.disjoint, if_true, Bool.not_eq_true']
  by_cases henter : change.enter.isDisjoint members = true
  · by_cases hleave : change.leave.isSubset members = true
    · by_cases howner : change.leave.contains owner = true
      · rw [if_neg (by simp [henter]), if_neg (by simp [hleave]), if_pos howner]
        refine .inr ⟨?_, _, rfl⟩
        rintro ⟨_, -, -, -, hstays⟩
        exact hstays howner
      · rw [if_neg (by simp [henter]), if_neg (by simp [hleave]), if_neg howner]
        exact .inl ⟨⟨members, rfl, MemberSet.isDisjoint_iff_forall.1 henter,
          MemberSet.isSubset_iff_forall.1 hleave, howner⟩, rfl⟩
    · rw [if_neg (by simp [henter]), if_pos (Bool.eq_false_iff.2 hleave)]
      refine .inr ⟨?_, _, rfl⟩
      rintro ⟨_, ⟨⟩, -, hsubset, -⟩
      exact hleave (MemberSet.isSubset_iff_forall.2 hsubset)
  · rw [if_pos (Bool.eq_false_iff.2 henter)]
    refine .inr ⟨?_, _, rfl⟩
    rintro ⟨_, ⟨⟩, hdisjoint, -⟩
    exact henter (MemberSet.isDisjoint_iff_forall.2 hdisjoint)

/-- A control that fits has its effect, and any other one is an error of the state. -/
theorem apply_cases (change : Control) (owner : MemberId) (standing : Standing) :
    (change.Fits owner standing ∧ change.apply owner standing = .ok (change.effect owner standing)) ∨
      ¬change.Fits owner standing ∧ ∃ error, change.apply owner standing = .error (.state error) := by
  cases standing with
  | none =>
      cases change with
      | selfEnter => exact .inl ⟨rfl, rfl⟩
      | selfLeave => exact .inr ⟨fun hinside => hinside rfl, _, rfl⟩
      | delta change => exact .inr ⟨by rintro ⟨_, ⟨⟩, -⟩, _, rfl⟩
  | some members =>
      cases change with
      | selfEnter => exact .inr ⟨by rintro ⟨⟩, _, rfl⟩
      | selfLeave => exact .inl ⟨Option.some_ne_none members, rfl⟩
      | delta change => exact apply_delta_cases change owner members

theorem landing_of_fits (hfits : change.Fits owner standing) :
    (Notice.control change).landing owner standing = change.effect owner standing := by
  obtain ⟨-, happly⟩ := (change.apply_cases owner standing).resolve_right fun h => h.1 hfits
  rw [Notice.landing, happly]

/-- An owner that a control leaves inside belongs to what it sees: it enters alone, and no delta that fits
takes it out. -/
theorem owner_mem_effect {members : MemberSet} (hfits : change.Fits owner standing)
    (hstanding : ∀ earlier, standing = some earlier → owner ∈ earlier)
    (heffect : change.effect owner standing = some members) : owner ∈ members := by
  cases change with
  | selfEnter =>
      cases heffect
      exact MemberSet.mem_singleton_iff.2 rfl
  | selfLeave => cases heffect
  | delta change =>
      obtain ⟨earlier, rfl, -, -, hstays⟩ := hfits
      cases heffect
      exact MemberSet.mem_union_iff.2 (.inl (MemberSet.mem_sdiff_iff.2 ⟨hstanding earlier rfl, hstays⟩))

end Control

namespace Server

/-- The owner of a member's channel, and what it sees of the membership. -/
def view (server : Server) (id : MemberId) : MemberId × Standing :=
  ((server.mailbox id).channel.owner, (server.mailbox id).channel.standing)

variable {server : Server} {id : MemberId}

theorem Retains.view {next : Server} (hretains : server.Retains next) : next.view = server.view := by
  funext id
  rw [Server.view, hretains.channel, Server.view]

theorem view_modifyChannel {change : Channel → Channel}
    (howner : ∀ channel, (change channel).owner = channel.owner)
    (hstanding : ∀ channel, (change channel).standing = channel.standing) :
    (server.modifyChannel id change).view = server.view := by
  cases hmailbox : server.mailbox? id with
  | none => rw [modifyChannel, modifyMailbox_of_eq_none server id hmailbox]
  | some mailbox =>
      funext other
      rw [view, modifyChannel, mailbox_modifyMailbox server id hmailbox]
      by_cases heq : other = id
      · rw [heq, Function.update_self, howner, hstanding, view, mailbox_of_mailbox? server id hmailbox]
      · rw [Function.update_of_ne heq, view]

theorem view_subscribe (server : Server) (id : MemberId) (subscriber : Subscriber) :
    (server.step (.subscribe id subscriber)).1.view = server.view := by
  calc
    (server.step (.subscribe id subscriber)).1.view = (server.openMailbox id).view :=
      view_modifyChannel (fun _ => rfl) (fun _ => rfl)
    _ = server.view := (retains_openMailbox server id).view

theorem view_notify {channel heard : Channel} {notice : Notice} {next : Server} {line : Log.Line}
    (hchannel : server.channel? id = some channel)
    (hnotify : server.notify id channel notice = .ok (next, heard, line)) :
    next.view = Function.update server.view id
      (channel.owner, notice.landing channel.owner channel.standing) := by
  obtain ⟨mailbox, hmailbox, rfl⟩ := Option.map_eq_some_iff.1 hchannel
  funext other
  rw [eq_modifyChannel_of_notify hnotify, view, modifyChannel, mailbox_modifyMailbox server id hmailbox]
  by_cases heq : other = id
  · rw [heq, Function.update_self, Function.update_self]
    rfl
  · rw [Function.update_of_ne heq, Function.update_of_ne heq, view]

theorem notify_of_fits {channel : Channel} {change : Control} (server : Server) (id : MemberId)
    (hfits : change.Fits channel.owner channel.standing) :
    ∃ next heard line, server.notify id channel (.control change) = .ok (next, heard, line) := by
  obtain ⟨-, happly⟩ := (change.apply_cases channel.owner channel.standing).resolve_right fun h => h.1 hfits
  simp only [notify, Channel.absorb, happly, bind, Except.bind, pure, Except.pure]
  exact ⟨_, _, _, rfl⟩

theorem notify_of_not_fits {channel : Channel} {change : Control} (server : Server) (id : MemberId)
    (hfits : ¬change.Fits channel.owner channel.standing) :
    ∃ error, server.notify id channel (.control change) = .error (.state error) := by
  obtain ⟨-, error, happly⟩ :=
    (change.apply_cases channel.owner channel.standing).resolve_left fun h => hfits h.1
  refine ⟨error, ?_⟩
  simp only [notify, Channel.absorb, happly, bind, Except.bind]

theorem view_erase (server : Server) (id : MemberId) :
    ({ server with mailboxes := server.mailboxes.erase id } : Server).view =
      Function.update server.view id (id, none) := by
  funext other
  rw [view, mailbox, mailbox?]
  dsimp only
  rw [Directory.get?_erase]
  by_cases heq : other = id
  · rw [heq, if_pos rfl, Function.update_self]
    rfl
  · rw [if_neg heq, Function.update_of_ne heq, view, mailbox, mailbox?]

end Server

namespace Session

theorem view_cancel (session : Session) (name : MemberId) :
    (session.cancel name).2.server.view = session.server.view := by
  unfold cancel
  split
  · rfl
  · unfold unsubscribe
    split
    · exact Server.view_modifyChannel (fun _ => rfl) (fun _ => rfl)
    · rfl

end Session

namespace Moment

variable {session : Session} {stack : List Frame}

/-- What every owner sees now. -/
def view (moment : Moment) : MemberId → MemberId × Standing := moment.session.server.view

/-- Nothing that is asked for changes what owners see, but dropping a channel does. -/
theorem view_ask {command : Command} (hdrop : ∀ id, command ≠ .drop id) (session : Session)
    (stack : List Frame) : (ask session stack command).view = session.server.view := by
  cases command with
  | subscribe id name respond =>
      have hserver := Session.server_subscribe session id ⟨name, respond⟩
      exact (congrArg Server.view hserver).trans (Server.view_subscribe session.server id _)
  | cancel name => exact Session.view_cancel session name
  | install id transport => exact Server.view_modifyChannel (fun _ => rfl) (fun _ => rfl)
  | drop id => exact absurd rfl (hdrop id)
  | _ => exact (retains_ask (by trivial) session stack).server.view

/-- Whether what is done now ends with an error of a channel's state. -/
def raises (moment : Moment) : Bool :=
  match moment.next.task with
  | .answer (.error (.state _)) => true
  | _ => false

/-- The control that a member's channel takes now: it is told one, and raises nothing. -/
def taken? (id : MemberId) (moment : Moment) : Option Control :=
  match moment.task with
  | .hear other (.control change) =>
      if other = id ∧ (moment.session.channel? id).isSome = true ∧ moment.raises = false then some change
      else none
  | _ => none

/-- Whether a member's channel is given up now. -/
def drops (id : MemberId) (moment : Moment) : Bool :=
  match moment.task with
  | .ask (.drop other) => other == id
  | _ => false

/-- The controls that a member's channel has taken so many moments later, since it was made. -/
def history (id : MemberId) (moment : Moment) : (count : Nat) → List Control
  | 0 => []
  | count + 1 =>
      if (moment.after count).drops id then []
      else moment.history id count ++ ((moment.after count).taken? id).toList

/-- What a member sees next. -/
def sees (id : MemberId) (moment : Moment) : Standing :=
  if moment.drops id then none
  else
    match moment.taken? id with
    | none => moment.session.standing id
    | some change => change.effect id (moment.session.standing id)

variable {moment : Moment} {id : MemberId}

/-- A control that fits is taken, and goes on to the subscribers. -/
theorem next_hear_of_fits {channel : Channel} {change : Control}
    (hchannel : session.channel? id = some channel)
    (hfits : change.Fits channel.owner channel.standing) (stack : List Frame) :
    ∃ later heard, (⟨session, .hear id (.control change), stack⟩ : Moment).next =
        ⟨later, .publish heard (.control change) heard.subscriptions.active false, stack⟩ ∧
      later.server.view = Function.update session.server.view id
        (channel.owner, change.effect channel.owner channel.standing) := by
  obtain ⟨server, heard, line, hnotify⟩ := session.server.notify_of_fits id hfits
  have hview := Server.view_notify hchannel hnotify
  rw [Control.landing_of_fits hfits] at hview
  refine ⟨({ session with server }.log [line]).beginPublishing heard.owner, heard, ?_, hview⟩
  simp only [next, hear, hchannel, hnotify, Channel.publishes, if_true]

/-- A control that does not fit is an error, and nothing has changed. -/
theorem next_hear_of_not_fits {channel : Channel} {change : Control}
    (hchannel : session.channel? id = some channel)
    (hfits : ¬change.Fits channel.owner channel.standing) (stack : List Frame) :
    ∃ error, (⟨session, .hear id (.control change), stack⟩ : Moment).next =
      answer session stack (.error (.state error)) := by
  obtain ⟨error, hnotify⟩ := session.server.notify_of_not_fits id hfits
  refine ⟨error, ?_⟩
  simp only [next, hear, hchannel, hnotify]

theorem view_hear_raw (payload : Bytes) (sender : MemberId) (session : Session) (stack : List Frame) :
    (hear session stack id (.raw payload sender)).view = session.server.view := by
  unfold hear
  split
  · rfl
  · rename_i channel hchannel
    split
    · rfl
    · rename_i server heard line hnotify
      have hview := Server.view_notify hchannel hnotify
      have hsame : Function.update session.server.view id (channel.owner, channel.standing) =
          session.server.view := by
        rw [← Server.channel_mailbox session.server id hchannel]
        exact Function.update_eq_self id session.server.view
      have hserver : server.view = session.server.view := hview.trans hsame
      split
      · exact hserver
      · exact hserver

theorem taken?_hear_of_fits {channel : Channel} {change : Control}
    (hchannel : session.channel? id = some channel)
    (hfits : change.Fits channel.owner channel.standing) (stack : List Frame) :
    taken? id ⟨session, .hear id (.control change), stack⟩ = some change := by
  obtain ⟨later, heard, hnext, -⟩ := next_hear_of_fits hchannel hfits stack
  have hraises : (⟨session, .hear id (.control change), stack⟩ : Moment).raises = false := by
    rw [raises, hnext]
  exact if_pos ⟨rfl, Option.isSome_iff_exists.2 ⟨channel, hchannel⟩, hraises⟩

theorem taken?_hear_of_not_fits {channel : Channel} {change : Control}
    (hchannel : session.channel? id = some channel)
    (hfits : ¬change.Fits channel.owner channel.standing) (stack : List Frame) :
    taken? id ⟨session, .hear id (.control change), stack⟩ = none := by
  obtain ⟨error, hnext⟩ := next_hear_of_not_fits hchannel hfits stack
  have hraises : (⟨session, .hear id (.control change), stack⟩ : Moment).raises = true := by
    rw [raises, hnext]
    rfl
  exact if_neg fun htaken => Bool.noConfusion (hraises.symm.trans htaken.2.2)

theorem view_of_owned (howned : session.server.Owned) (id : MemberId) :
    session.server.view id = (id, session.standing id) :=
  Prod.ext (howned id) (session.server.standing_eq id).symm

theorem channel_of_owned {channel : Channel} (howned : session.server.Owned)
    (hchannel : session.channel? id = some channel) :
    channel.owner = id ∧ channel.standing = session.standing id := by
  constructor
  · rw [← Server.channel_mailbox session.server id hchannel, howned id]
  · rw [Session.standing, hchannel]
    rfl

/-- Where no channel takes a control and none is dropped, everybody goes on to see the same. -/
theorem view_next_of_same (howned : moment.session.server.Owned) (hview : moment.next.view = moment.view)
    (hdrop : moment.drops id = false) (htaken : moment.taken? id = none) :
    moment.next.view id = (id, moment.sees id) := by
  rw [hview, sees, hdrop, htaken]
  exact view_of_owned howned id

theorem view_next_hear (howned : session.server.Owned) (id other : MemberId) (notice : Notice)
    (stack : List Frame) :
    (⟨session, .hear other notice, stack⟩ : Moment).next.view id =
      (id, sees id ⟨session, .hear other notice, stack⟩) := by
  cases notice with
  | raw payload sender =>
      exact view_next_of_same howned (view_hear_raw payload sender session stack) rfl rfl
  | control change =>
      cases hchannel : session.channel? other with
      | none =>
          refine view_next_of_same howned ?_ rfl (if_neg fun htaken => ?_)
          · simp only [next, hear, hchannel]
            rfl
          · rw [← htaken.1, hchannel] at htaken
            exact Bool.false_ne_true htaken.2.1
      | some channel =>
          by_cases hfits : change.Fits channel.owner channel.standing
          · obtain ⟨later, heard, hnext, hview⟩ := next_hear_of_fits hchannel hfits stack
            by_cases heq : id = other
            · obtain ⟨howner, hstanding⟩ := channel_of_owned howned hchannel
              rw [heq, hnext, Moment.view, hview, Function.update_self, sees,
                taken?_hear_of_fits hchannel hfits, howner, hstanding]
              rfl
            · have hsame : later.server.view id = session.server.view id := by
                rw [hview, Function.update_of_ne heq]
              have htaken : taken? id ⟨session, .hear other (.control change), stack⟩ = none :=
                if_neg fun htaken => heq htaken.1.symm
              rw [hnext, Moment.view, hsame, sees, htaken]
              exact view_of_owned howned id
          · obtain ⟨error, hnext⟩ := next_hear_of_not_fits hchannel hfits stack
            refine view_next_of_same howned (by rw [hnext]; rfl) rfl ?_
            by_cases heq : other = id
            · rw [← heq]
              exact taken?_hear_of_not_fits hchannel hfits stack
            · exact if_neg fun htaken => heq htaken.1

theorem view_next_drop (howned : session.server.Owned) (id other : MemberId) (stack : List Frame) :
    (⟨session, .ask (.drop other), stack⟩ : Moment).next.view id =
      (id, sees id ⟨session, .ask (.drop other), stack⟩) := by
  have hnext : (⟨session, .ask (.drop other), stack⟩ : Moment).next.view =
      Function.update session.server.view other (other, none) :=
    Server.view_erase session.server other
  have hdrop : drops id ⟨session, .ask (.drop other), stack⟩ = (other == id) := rfl
  rw [hnext, sees, hdrop]
  by_cases heq : id = other
  · rw [heq, Function.update_self, BEq.rfl, if_pos rfl]
  · have hother : (other == id) = false := beq_false_of_ne fun h => heq h.symm
    rw [Function.update_of_ne heq, hother, if_neg Bool.false_ne_true]
    exact view_of_owned howned id

/-- Each moment changes what owners see as it should. -/
theorem view_next (howned : moment.session.server.Owned) (id : MemberId) :
    moment.next.view id = (id, moment.sees id) := by
  obtain ⟨session, task, stack⟩ := moment
  cases task with
  | run program =>
      refine view_next_of_same howned ?_ rfl rfl
      cases program with
      | finish verdict => exact (retains_takeVerdict verdict session stack).server.view
      | perform command next => rfl
  | ask command =>
      by_cases hdrop : ∃ other, command = .drop other
      · obtain ⟨other, rfl⟩ := hdrop
        exact view_next_drop howned id other stack
      · have hnot : ∀ other, command ≠ .drop other := fun other heq => hdrop ⟨other, heq⟩
        refine view_next_of_same howned (view_ask hnot session stack) ?_ rfl
        cases command with
        | drop other => exact absurd rfl (hnot other)
        | _ => rfl
  | hear other notice => exact view_next_hear howned id other notice stack
  | publish channel notice waiting handled =>
      refine view_next_of_same howned ?_ rfl rfl
      cases waiting with
      | nil => rfl
      | cons entry waiting =>
          exact (retains_publish_cons channel notice handled entry waiting session stack).server.view
  | deliver other =>
      exact view_next_of_same howned (retains_deliver other session stack).server.view rfl rfl
  | drain received delivered =>
      exact view_next_of_same howned (retains_drain received delivered session stack).server.view rfl rfl
  | settle => exact view_next_of_same howned (receives_settle session stack).retains.server.view rfl rfl
  | answer outcome =>
      exact view_next_of_same howned (retains_takeOutcome outcome session stack).server.view rfl rfl

theorem owned_after (howned : moment.session.server.Owned) (count : Nat) :
    (moment.after count).session.server.Owned := by
  induction count with
  | zero => exact howned
  | succ count ih => exact fun id => congrArg Prod.fst (view_next ih id)

theorem standing_next (howned : moment.session.server.Owned) (id : MemberId) :
    moment.next.session.standing id = moment.sees id := by
  calc
    moment.next.session.standing id = (moment.next.view id).2 :=
      moment.next.session.server.standing_eq id
    _ = moment.sees id := congrArg Prod.snd (view_next howned id)

/-- A member sees what the controls that its channel has taken lead to. -/
theorem standing_after (howned : moment.session.server.Owned)
    (houtside : moment.session.standing id = none) (count : Nat) :
    (moment.after count).session.standing id =
      (moment.history id count).foldl (Control.effect id) none := by
  induction count with
  | zero => exact houtside
  | succ count ih =>
      rw [after, standing_next (owned_after howned count), sees, history]
      cases (moment.after count).drops id with
      | true => rfl
      | false =>
          rw [if_neg Bool.false_ne_true, if_neg Bool.false_ne_true, List.foldl_append, ← ih]
          cases (moment.after count).taken? id with
          | none => rfl
          | some change => rfl

theorem fits_of_taken? (howned : moment.session.server.Owned) {change : Control}
    (htaken : moment.taken? id = some change) : change.Fits id (moment.session.standing id) := by
  obtain ⟨session, task, stack⟩ := moment
  cases task with
  | hear other notice =>
      cases notice with
      | raw payload sender => cases htaken
      | control told =>
          by_cases hid : other = id ∧ (session.channel? id).isSome = true ∧
              raises ⟨session, .hear other (.control told), stack⟩ = false
          · have hchange : told = change := Option.some.inj ((if_pos hid).symm.trans htaken)
            obtain ⟨rfl, hsome, -⟩ := hid
            obtain ⟨channel, hchannel⟩ := Option.isSome_iff_exists.1 hsome
            obtain ⟨howner, hstanding⟩ := channel_of_owned howned hchannel
            by_contra hfits
            rw [← hchange, ← hstanding, ← howner] at hfits
            cases (taken?_hear_of_not_fits hchannel hfits stack).symm.trans htaken
          · cases (if_neg hid).symm.trans htaken
  | _ => cases htaken

theorem mem_of_standing_after (howned : moment.session.server.Owned)
    (houtside : moment.session.standing id = none) (count : Nat) {members : MemberSet}
    (hstanding : (moment.after count).session.standing id = some members) : id ∈ members := by
  induction count generalizing members with
  | zero => cases houtside.symm.trans hstanding
  | succ count ih =>
      have hearlier : ∀ earlier, (moment.after count).session.standing id = some earlier →
          id ∈ earlier := fun _ => ih
      rw [after, standing_next (owned_after howned count), sees] at hstanding
      cases hdrop : (moment.after count).drops id with
      | true =>
          rw [hdrop] at hstanding
          cases hstanding
      | false =>
          cases htaken : (moment.after count).taken? id with
          | none =>
              rw [hdrop, htaken] at hstanding
              exact hearlier members hstanding
          | some change =>
              rw [hdrop, htaken] at hstanding
              have hfits := fits_of_taken? (owned_after howned count) htaken
              exact Control.owner_mem_effect hfits hearlier hstanding

end Moment

namespace Session

variable {exec : Command → Run Outcome} {session final : Session} {id : MemberId} {channel : Channel}
  {notice : Notice} {outcome : Outcome}

theorem notify_eq_of_closed (hchannel : session.channel? id = none) :
    notify exec id notice session = some (.ok (.flag false), session) := by
  simp only [notify, bind, StateT.bind, get, getThe, MonadStateOf.get, StateT.get, pure,
    Option.bind_some, hchannel]
  rfl

theorem notify_eq_of_error {failure : Failure} (hchannel : session.channel? id = some channel)
    (herror : session.server.notify id channel notice = .error failure) :
    notify exec id notice session = some (.error failure, session) := by
  simp only [notify, bind, StateT.bind, get, getThe, MonadStateOf.get, StateT.get, pure,
    Option.bind_some, hchannel, herror]
  rfl

theorem publish_eq_flag (hpublish : publish exec channel notice session = some (outcome, final)) :
    ∃ handled, outcome = .ok (.flag handled) := by
  unfold publish at hpublish
  split at hpublish
  · obtain ⟨⟨handled, later⟩, -, hresult⟩ := Option.bind_eq_some_iff.1 hpublish
    cases hresult
    exact ⟨handled, rfl⟩
  · cases hpublish
    exact ⟨false, rfl⟩

theorem mailbox?_onChannel (logger : Log.Logger) (owner id : MemberId) :
    (onChannel logger owner).server.mailbox? id =
      if id = owner then some { channel := { owner } } else none :=
  Directory.get?_set Directory.empty owner _ id

theorem channel?_onChannel (logger : Log.Logger) (owner : MemberId) :
    (onChannel logger owner).channel? owner = some { owner } := by
  rw [channel?, Server.channel?, mailbox?_onChannel, if_pos rfl]
  rfl

theorem standing_onChannel (logger : Log.Logger) (owner : MemberId) :
    (onChannel logger owner).standing owner = none := by
  rw [standing, channel?_onChannel]
  rfl

theorem owned_onChannel (logger : Log.Logger) (owner : MemberId) : (onChannel logger owner).server.Owned := by
  intro id
  rw [Server.mailbox, mailbox?_onChannel]
  by_cases heq : id = owner
  · rw [if_pos heq, heq]
    rfl
  · rw [if_neg heq]
    rfl

/-- Delivering a control ends with an error of the state if and only if that is raised at once. -/
theorem notify_raises_iff {change : Control} (stack : List Frame)
    (hnotify : notify exec id (.control change) session = some (outcome, final)) :
    (∃ error, outcome = .error (.state error)) ↔
      (⟨session, .hear id (.control change), stack⟩ : Moment).raises = true := by
  cases hchannel : session.channel? id with
  | none =>
      have hoff : (⟨session, .hear id (.control change), stack⟩ : Moment).raises = false := by
        simp only [Moment.raises, Moment.next, Moment.hear, hchannel, Moment.answer]
      rw [notify_eq_of_closed hchannel] at hnotify
      cases hnotify
      rw [hoff]
      exact iff_of_false (by rintro ⟨error, ⟨⟩⟩) Bool.false_ne_true
  | some channel =>
      by_cases hfits : change.Fits channel.owner channel.standing
      · obtain ⟨later, heard, hnext, -⟩ := Moment.next_hear_of_fits hchannel hfits stack
        obtain ⟨server, next, line, hok⟩ := session.server.notify_of_fits id hfits
        rw [notify_eq session hchannel hok] at hnotify
        obtain ⟨handled, rfl⟩ := publish_eq_flag hnotify
        rw [Moment.raises, hnext]
        exact iff_of_false (by rintro ⟨error, ⟨⟩⟩) Bool.false_ne_true
      · obtain ⟨error, hnext⟩ := Moment.next_hear_of_not_fits hchannel hfits stack
        obtain ⟨cause, herror⟩ := session.server.notify_of_not_fits id hfits
        rw [notify_eq_of_error hchannel herror] at hnotify
        cases hnotify
        rw [Moment.raises, hnext]
        exact iff_of_true ⟨cause, rfl⟩ rfl

end Session

namespace Moment

/-- **What an owner sees.** At every moment of every session on a channel, the owner is outside or belongs to
the membership that it sees. This is what the controls lead to that the channel has taken, one after the
other, and it stays the same where none is taken. Those that are not taken are those whose delivery ends
with an error of the state. The moments are those of the session: a program that comes to an end within some
limit does so through them. -/
theorem standing_follows_taken_controls (logger : Log.Logger) (owner : MemberId) (program : Program) :
    let start : Moment := ⟨.onChannel logger owner, .run program, []⟩
    (∀ count,
      (start.after count).session.standing owner =
          (start.history owner count).foldl (Control.effect owner) none ∧
        (∀ members, (start.after count).session.standing owner = some members →
          owner ∈ members ∧ members.isEmpty = false) ∧
        ((start.after count).taken? owner = none → (start.after count).drops owner = false →
          (start.after (count + 1)).session.standing owner = (start.after count).session.standing owner)) ∧
      (∀ limit (session final : Session) change outcome stack,
        Session.notify (Session.exec limit) owner (.control change) session = some (outcome, final) →
          ((∃ error, outcome = .error (.state error)) ↔
            (⟨session, .hear owner (.control change), stack⟩ : Moment).raises = true)) ∧
      ∀ limit verdict final,
        program.run (Session.exec limit) (.onChannel logger owner) = some (verdict, final) →
          ∃ count, start.after count = ⟨final, .run (.finish verdict), []⟩ := by
  intro start
  have howned : start.session.server.Owned := Session.owned_onChannel logger owner
  have houtside : start.session.standing owner = none := Session.standing_onChannel logger owner
  refine ⟨fun count => ⟨standing_after howned houtside count, ?_, ?_⟩, ?_, ?_⟩
  · intro members hmembers
    have hmem := mem_of_standing_after howned houtside count hmembers
    refine ⟨hmem, Bool.eq_false_iff.2 fun hempty => ?_⟩
    exact MemberSet.isEmpty_iff_forall.1 hempty owner hmem
  · intro htaken hdrop
    rw [after, standing_next (owned_after howned count), sees, hdrop, htaken]
    rfl
  · intro limit session final change outcome stack hnotify
    exact Session.notify_raises_iff stack hnotify
  · intro limit verdict final hrun
    exact Session.leads_to_verdict [] hrun

end Moment

end GroupChat
