import GroupChat.Proofs.DeliveryOrder
import GroupChat.Proofs.NoticeChecks
import GroupChat.Proofs.Onlookers
import GroupChat.Proofs.SubscriptionTables

/-!
# One delivery

The subscribers of a channel are called one after the other, out of a list that is taken when the delivery
begins, while those that are called subscribe and cancel as they like. Main statement: whoever was subscribed
at first is called unless one that was called earlier has cancelled it by then, and those that fail are
logged and keep nobody else from being called.
-/

namespace GroupChat

/-- Commands that deal with subscriptions, or change nothing that others could see. -/
def Command.IsLocal : Command → Prop
  | .subscribe _ _ _ | .cancel _ | .setLevel _ | .target | .queued _ => True
  | _ => False

def Program.IsLocal : Program → Prop
  | .finish _ => True
  | .perform command next => command.IsLocal ∧ ∀ outcome, (next outcome).IsLocal

/-- A subscriber that accepts, declines or fails, having subscribed and cancelled whatever it likes. -/
def Subscriber.IsLocal (subscriber : Subscriber) : Prop :=
  ∀ earlier notice standing, (subscriber.respond earlier notice standing).IsLocal

/-- What is logged about a subscriber that comes to this verdict. -/
def Channel.complaints (channel : Channel) : Except Bytes Bool → List Log.Line
  | .ok _ => []
  | .error text =>
      [channel.line .error (Bytes.ofString "subscriber failed: " ++ (Failure.raised text).message)]

namespace Session

variable {limit : Nat} {session : Session}

theorem log_nil (session : Session) : session.log [] = session := by
  have hevents : session.events ++ [] = session.events := List.append_nil _
  exact congrArg (fun events => { session with events }) hevents

theorem exec_ends_of_isLocal {command : Command} (hcommand : command.IsLocal) (session : Session) :
    session.Ends (Session.exec (limit + 1) command) fun _ _ => True := by
  cases command with
  | subscribe id name respond => exact .modify (.pure trivial)
  | cancel name => exact .get (.set (.pure trivial))
  | setLevel level => exact .modify (.pure trivial)
  | target => exact .get (.pure trivial)
  | queued id => exact .get (.pure trivial)
  | _ => exact hcommand.elim

theorem program_ends_of_isLocal {program : Program} (hprogram : program.IsLocal) (session : Session) :
    session.Ends (program.run (Session.exec (limit + 1))) fun _ _ => True := by
  induction program using Program.rec
    (motive_1 := fun _ => True) (motive_3 := fun _ => True) generalizing session with
  | finish verdict => exact .pure trivial
  | perform command next _ ih =>
      simp only [Program.run]
      refine .bind (exec_ends_of_isLocal hprogram.1 session) fun outcome later _ => ?_
      cases outcome with
      | error failure => exact ih _ (hprogram.2 _) later
      | ok value => exact .modify (ih _ (hprogram.2 _) _)
  | _ => trivial

theorem callAll_ends_of_isLocal (channel : Channel) (notice : Notice) {waiting : List (Nat × Subscriber)}
    (hwaiting : ∀ entry ∈ waiting, entry.2.IsLocal) (session : Session) :
    session.Ends (callAll (Session.exec (limit + 1)) channel notice waiting) fun _ _ => True := by
  induction waiting generalizing session with
  | nil => exact .pure trivial
  | cons entry waiting ih =>
      have hrest := ih fun other hother => hwaiting other (List.mem_cons_of_mem _ hother)
      simp only [callAll]
      refine .get ?_
      split
      · refine .bind (.get (.set (program_ends_of_isLocal (hwaiting entry List.mem_cons_self _ _ _) _)))
          fun verdict later _ => ?_
        cases verdict with
        | ok handled => exact .bind (hrest later) fun _ _ _ => .pure trivial
        | error text => exact .modify (hrest _)
      · exact hrest session

/-- A delivery to such subscribers comes to an end. -/
theorem publish_ends_of_isLocal {channel : Channel}
    (hlocal : ∀ entry ∈ channel.subscriptions.active, entry.2.IsLocal) (notice : Notice) (session : Session) :
    session.Ends (publish (Session.exec (limit + 1)) channel notice) fun _ _ => True := by
  unfold publish
  split
  · exact .modify (.bind (callAll_ends_of_isLocal channel notice hlocal _) fun _ _ _ =>
      .modify (.pure trivial))
  · exact .pure trivial

end Session

namespace Moment

variable {moment : Moment} {delivery : Delivery} {owner : MemberId} {rest : List MemberId}
  {since count ending : Nat}

/-- Nobody is called but those that were subscribed at first, in the order of their subscriptions. -/
theorem called_sublist (hturn : (moment.after since).turn = .begins delivery)
    (hcurrent : moment.current? ending = some since) (hends : (moment.after ending).turn = .ends owner) :
    (moment.called since ending).Sublist delivery.waiting := by
  rw [← visits_of_ends hturn hcurrent hends]
  exact List.filter_sublist.map Visit.entry

theorem mem_called_iff {entry : Nat × Subscriber} :
    entry ∈ moment.called since count ↔
      ∃ visit ∈ moment.visits since count, visit.called = true ∧ visit.entry = entry := by
  simp only [called, List.mem_map, List.mem_filter, and_assoc]

theorem calling_of_mem_deliveries {stack : List Frame} (hmem : delivery ∈ Frame.deliveries stack) :
    delivery.calling = true := by
  induction stack with
  | nil => cases hmem
  | cons frame stack ih =>
      cases frame with
      | calling channel notice waiting handled =>
          rcases List.mem_cons.1 hmem with rfl | hmem
          · rfl
          · exact ih hmem
      | _ => exact ih hmem

/-- Whatever is asked for during a delivery is asked for by the subscriber that was called last. -/
theorem exists_caller {command : Command} (hmem : since ∈ moment.begun count)
    (htask : (moment.after count).task = .ask command) :
    ∃ caller, (moment.called since count).getLast? = some caller := by
  obtain ⟨other, hother, hunder⟩ := exists_delivery_of_mem hmem
  rw [deliveries, htask] at hother
  have hcalling := hunder.calling
  rw [calling_of_mem_deliveries hother] at hcalling
  cases hlast : (moment.called since count).getLast? with
  | none =>
      rw [List.getLast?_eq_none_iff.1 hlast] at hcalling
      cases hcalling
  | some caller => exact ⟨caller, rfl⟩

theorem pairwise_called (hmem : since ∈ moment.begun count) :
    (moment.called since count).Pairwise fun first second => first.1 < second.1 := by
  obtain ⟨other, -, hunder⟩ := exists_delivery_of_mem hmem
  exact (List.pairwise_append.1 hunder.pairwise).1.sublist (List.filter_sublist.map Visit.entry)

/-- Whoever was called last comes last in the order of subscriptions. -/
theorem le_of_getLast? {entry caller : Nat × Subscriber} (hmem : since ∈ moment.begun count)
    (hentry : entry ∈ moment.called since count)
    (hcaller : (moment.called since count).getLast? = some caller) : entry.1 ≤ caller.1 := by
  obtain ⟨earlier, hcalled⟩ := List.getLast?_eq_some_iff.1 hcaller
  have hpairwise := pairwise_called hmem
  rw [hcalled] at hentry hpairwise
  rcases List.mem_append.1 hentry with hentry | hentry
  · exact Nat.le_of_lt ((List.pairwise_append.1 hpairwise).2.2 entry hentry caller List.mem_cons_self)
  · exact Nat.le_of_eq (congrArg Prod.fst (List.mem_singleton.1 hentry))

theorem called_subset_of_le {later : Nat} (hle : count ≤ later) :
    moment.called since count ⊆ moment.called since later := by
  intro entry hentry
  obtain ⟨visit, hvisit, hrest⟩ := mem_called_iff.1 hentry
  exact mem_called_iff.2 ⟨visit, (gathered_isPrefixOf hle).subset hvisit, hrest⟩

/-- Who had a turn before some moment is among those who had one by then. -/
theorem mem_visits_of_lt {visit : Visit} (hvisit : visit ∈ moment.visits since ending)
    (hlt : visit.count < count) : visit ∈ moment.visits since count := by
  obtain ⟨-, hcurrent, hvisit'⟩ := of_mem_visits hvisit
  refine (gathered_isPrefixOf (Nat.succ_le_of_lt hlt)).subset ?_
  rw [← visits, visits_succ hcurrent hvisit']
  exact List.mem_append_right _ List.mem_cons_self

/-- Whoever has a turn comes after those that have been called by then. -/
theorem lt_of_mem_called {visit : Visit} {caller : Nat × Subscriber}
    (hvisit : visit ∈ moment.visits since ending) (hcaller : caller ∈ moment.called since visit.count) :
    caller.1 < visit.key := by
  obtain ⟨-, hcurrent, hvisit'⟩ := of_mem_visits hvisit
  obtain ⟨other, hother, -, rfl⟩ := mem_called_iff.1 hcaller
  exact lt_of_mem_visits hcurrent hvisit' hother

theorem ne_of_revokes {key : Nat} {visit : Visit} (hvisit : visit ∈ moment.visits since ending)
    (hrevokes : (moment.after count).revokes owner key = true) : count ≠ visit.count := by
  rintro rfl
  obtain ⟨name, htask⟩ := task_of_revokes hrevokes
  obtain ⟨channel, notice, waiting, handled, htask', -⟩ := task_of_visit? (of_mem_visits hvisit).2.2
  cases htask.symm.trans htask'

section

variable (hturn : (moment.after 0).turn = .begins delivery)
  (hpublishing : moment.session.publishing = moment.deliveries.map (·.channel.owner) ++ rest)
  {table : Subscriptions Subscriber}
  (htable : moment.session.subscriptions? delivery.channel.owner = some table)
  (hwaiting : delivery.waiting = table.active)

include hturn hpublishing htable in
/-- While a delivery is under way, whoever was subscribed when it began stays so until it is cancelled. -/
theorem isSubscribed_of_mem_begun (hmem : 0 ∈ moment.begun count)
    (hstays : moment.StaysDropped delivery.channel.owner count) {entry : Nat × Subscriber}
    (hentry : entry ∈ table.active) :
    (moment.after count).session.isSubscribed delivery.channel.owner entry.1 =
      !moment.revoked delivery.channel.owner entry.1 count := by
  have hholds : ∀ between, 0 < between → between ≤ count →
      (moment.after between).session.Holds delivery.channel.owner := fun between hpos hle =>
    holds_of_mem_begun hpublishing hturn (mem_begun_of_le hmem hpos hle)
  obtain ⟨later, hlater, -, hactive⟩ := isActive_after hstays htable hholds
  have hentryActive : table.isActive entry.1 = true :=
    Subscriptions.isActive_iff_exists.2 ⟨entry.2, hentry⟩
  rw [Session.isSubscribed, hlater]
  change later.isActive entry.1 = _
  rw [hactive entry.1 (table.below entry hentry), hentryActive, Bool.true_and]

include hturn hpublishing htable in
/-- Whoever was subscribed is called at its turn unless it has been cancelled by then. -/
theorem called_eq_not_revoked (hstays : moment.StaysDropped delivery.channel.owner ending) {visit : Visit}
    (hvisit : visit ∈ moment.visits 0 ending) (hentry : visit.entry ∈ table.active) :
    visit.called = !moment.revoked delivery.channel.owner visit.key visit.count := by
  obtain ⟨hlt, hcurrent, hvisit'⟩ := of_mem_visits hvisit
  obtain ⟨channel, notice, waiting, handled, htask, hcalled⟩ := task_of_visit? hvisit'
  have hsubscribed := isSubscribed_of_mem_begun hturn hpublishing htable (mem_begun_of_current? hcurrent)
    (hstays.of_le (Nat.le_of_lt hlt)) hentry
  rw [Turn.begins.inj (hturn.symm.trans (underWay_of_publish htask hcurrent).began)] at hsubscribed ⊢
  exact hcalled.symm.trans hsubscribed

include hturn hpublishing htable hwaiting in
/-- Everybody who was subscribed is called, but for those that were cancelled by somebody called earlier. -/
theorem mem_called_iff_not_exists (hcurrent : moment.current? ending = some 0)
    (hends : (moment.after ending).turn = .ends owner)
    (hstays : moment.StaysDropped delivery.channel.owner ending) {entry : Nat × Subscriber}
    (hentry : entry ∈ table.active) :
    entry ∈ moment.called 0 ending ↔
      ¬∃ count < ending, ∃ caller, (moment.called 0 count).getLast? = some caller ∧ caller.1 < entry.1 ∧
        (moment.after count).revokes delivery.channel.owner entry.1 = true := by
  constructor
  · rintro hcalled ⟨count, hlt, caller, hcaller, hless, hrevokes⟩
    obtain ⟨visit, hvisit, hon, rfl⟩ := mem_called_iff.1 hcalled
    have hflag := called_eq_not_revoked hturn hpublishing htable hstays hvisit hentry
    rcases Nat.lt_or_gt_of_ne (ne_of_revokes hvisit hrevokes) with hearlier | hlater
    · have hrevoked : moment.revoked delivery.channel.owner visit.key visit.count = true :=
        revoked_iff_exists.2 ⟨count, hearlier, hrevokes⟩
      rw [hon, hrevoked] at hflag
      cases hflag
    · have hmem : 0 ∈ moment.begun count := mem_begun_of_le (mem_begun_of_current? hcurrent)
        (Nat.zero_lt_of_lt hlater) (Nat.le_of_lt hlt)
      have hentry' := mem_called_iff.2 ⟨visit, mem_visits_of_lt hvisit hlater, hon, rfl⟩
      exact Nat.lt_irrefl _ (Nat.lt_of_lt_of_le hless (le_of_getLast? hmem hentry' hcaller))
  · intro hnone
    have hvisits : (moment.visits 0 ending).map Visit.entry = table.active :=
      (visits_of_ends hturn hcurrent hends).trans hwaiting
    obtain ⟨visit, hvisit, rfl⟩ := List.mem_map.1 (hvisits ▸ hentry)
    refine mem_called_iff.2 ⟨visit, hvisit, ?_, rfl⟩
    rw [called_eq_not_revoked hturn hpublishing htable hstays hvisit hentry, Bool.not_eq_true']
    refine Bool.eq_false_iff.2 fun hrevoked => ?_
    obtain ⟨count, hlt, hrevokes⟩ := revoked_iff_exists.1 hrevoked
    obtain ⟨name, htask⟩ := task_of_revokes hrevokes
    have hpos : 0 < count := by
      refine Nat.pos_of_ne_zero ?_
      rintro rfl
      rw [turn, htask] at hturn
      cases hturn
    obtain ⟨hbefore, hcurrent', -⟩ := of_mem_visits hvisit
    have hmem : 0 ∈ moment.begun count :=
      mem_begun_of_le (mem_begun_of_current? hcurrent') hpos (Nat.le_of_lt hlt)
    obtain ⟨caller, hcaller⟩ := exists_caller hmem htask
    refine hnone ⟨count, Nat.lt_trans hlt hbefore, caller, hcaller, ?_, hrevokes⟩
    exact lt_of_mem_called hvisit
      (called_subset_of_le (Nat.le_of_lt hlt) (List.mem_of_getLast? hcaller))

end

/-- A delivery ends with the answers of all that were called in it. -/
theorem after_ends (hturn : (moment.after since).turn = .begins delivery)
    (hcurrent : moment.current? ending = some since) (hends : (moment.after ending).turn = .ends owner) :
    (moment.verdicts since ending).length = (moment.called since ending).length ∧
      moment.after (ending + 1) = answer ((moment.after ending).session.endPublishing owner) delivery.below
        (.ok (.flag ((moment.verdicts since ending).any accepts))) := by
  obtain ⟨channel, notice, handled, htask, rfl⟩ := task_of_ends hends
  have hunder := underWay_of_publish htask hcurrent
  refine ⟨hunder.calling.symm, ?_⟩
  rw [Turn.begins.inj (hturn.symm.trans hunder.began), ← hunder.handled, after, next, htask]
  rfl

/-- A subscriber that fails is logged, and nothing else is done about the answers of those that were called. -/
theorem session_of_answers {verdict : Except Bytes Bool} (hturn : (moment.after since).turn = .begins delivery)
    (hcurrent : moment.current? count = some since) (hanswers : (moment.after count).turn = .answers verdict) :
    (moment.after (count + 1)).session =
      (moment.after count).session.log (delivery.channel.complaints verdict) := by
  have htakes := (moment.after count).takes_turn
  rw [hanswers] at htakes
  cases htakes with
  | answers htask hstack =>
      obtain ⟨other, hother, hunder⟩ := exists_delivery hcurrent
      rw [deliveries, htask, hstack] at hother
      rw [Turn.begins.inj (hturn.symm.trans hunder.began), ← (List.cons.inj hother).1, after, next, htask,
        hstack]
      cases verdict with
      | ok accepted => exact (Session.log_nil _).symm
      | error text => rfl

/-- A delivery to subscribers that deal with nothing but subscriptions goes on, or is over. -/
inductive Plain : Moment → Prop
  | publishes {session : Session} {channel : Channel} {notice : Notice} {waiting : List (Nat × Subscriber)}
      {handled : Bool} (hwaiting : ∀ entry ∈ waiting, entry.2.IsLocal) :
      Plain ⟨session, .publish channel notice waiting handled, []⟩
  | runs {session : Session} {channel : Channel} {notice : Notice} {waiting : List (Nat × Subscriber)}
      {handled : Bool} {program : Program} (hwaiting : ∀ entry ∈ waiting, entry.2.IsLocal)
      (hprogram : program.IsLocal) :
      Plain ⟨session, .run program, [.calling channel notice waiting handled]⟩
  | asks {session : Session} {channel : Channel} {notice : Notice} {waiting : List (Nat × Subscriber)}
      {handled : Bool} {command : Command} {verb : Verb} {next : Outcome → Program}
      (hwaiting : ∀ entry ∈ waiting, entry.2.IsLocal) (hcommand : command.IsLocal)
      (hnext : ∀ outcome, (next outcome).IsLocal) :
      Plain ⟨session, .ask command, [.asking verb next, .calling channel notice waiting handled]⟩
  | answers {session : Session} {channel : Channel} {notice : Notice} {waiting : List (Nat × Subscriber)}
      {handled : Bool} {outcome : Outcome} {verb : Verb} {next : Outcome → Program}
      (hwaiting : ∀ entry ∈ waiting, entry.2.IsLocal) (hnext : ∀ outcome, (next outcome).IsLocal) :
      Plain ⟨session, .answer outcome, [.asking verb next, .calling channel notice waiting handled]⟩
  | ended {session : Session} {outcome : Outcome} : Plain ⟨session, .answer outcome, []⟩

theorem Plain.next (hplain : Plain moment) : Plain moment.next := by
  cases hplain with
  | @publishes session channel notice waiting handled hwaiting =>
      cases waiting with
      | nil => exact .ended
      | cons entry waiting =>
          have hrest : ∀ other ∈ waiting, other.2.IsLocal := fun other hother =>
            hwaiting other (List.mem_cons_of_mem entry hother)
          simp only [Moment.next, publish]
          split
          · exact .runs hrest (hwaiting entry List.mem_cons_self _ _ _)
          · exact .publishes hrest
  | @runs session channel notice waiting handled program hwaiting hprogram =>
      cases program with
      | perform command next => exact .asks hwaiting hprogram.1 hprogram.2
      | finish verdict =>
          cases verdict with
          | ok more => exact .publishes hwaiting
          | error text => exact .publishes hwaiting
  | @asks session channel notice waiting handled command verb next hwaiting hcommand hnext =>
      cases command with
      | subscribe id name respond => exact .answers hwaiting hnext
      | cancel name => exact .answers hwaiting hnext
      | setLevel level => exact .answers hwaiting hnext
      | target => exact .answers hwaiting hnext
      | queued id => exact .answers hwaiting hnext
      | _ => exact hcommand.elim
  | @answers session channel notice waiting handled outcome verb next hwaiting hnext =>
      cases outcome with
      | ok value => exact .runs hwaiting (hnext _)
      | error failure => exact .runs hwaiting (hnext _)
  | ended => exact .ended

theorem Plain.after (hplain : Plain moment) (count : Nat) : Plain (moment.after count) := by
  induction count with
  | zero => exact hplain
  | succ count ih => exact ih.next

theorem Plain.drops (hplain : Plain moment) (owner : MemberId) : moment.drops owner = false := by
  cases hplain with
  | @asks session channel notice waiting handled command verb next hwaiting hcommand hnext =>
      cases command with
      | drop id => exact hcommand.elim
      | _ => rfl
  | _ => rfl

/-- A channel that absorbs a notice which it publishes begins a delivery to all its subscribers. -/
theorem hear_of_absorb {session : Session} {channel heard : Channel} {notice : Notice} {line : Log.Line}
    (hchannel : session.channel? owner = some channel)
    (habsorb : channel.absorb notice = .ok (heard, line)) (hpublishes : heard.publishes notice = true)
    (stack : List Frame) :
    turn ⟨session, .hear owner notice, stack⟩ =
        .begins ⟨heard, notice, heard.subscriptions.active, false, false, stack⟩ ∧
      next ⟨session, .hear owner notice, stack⟩ =
        ⟨((session.modifyChannel owner fun _ => heard).log [line]).beginPublishing heard.owner,
          .publish heard notice heard.subscriptions.active false, stack⟩ := by
  have hnext : next ⟨session, .hear owner notice, stack⟩ =
      ⟨((session.modifyChannel owner fun _ => heard).log [line]).beginPublishing heard.owner,
        .publish heard notice heard.subscriptions.active false, stack⟩ := by
    simp only [next, hear, hchannel, Server.notify_of_absorb habsorb, hpublishes, if_true]
    rfl
  refine ⟨?_, hnext⟩
  simp only [turn, hnext]
  rfl

/-- An answer that nobody waits for stays. -/
theorem after_answer (session : Session) (outcome : Outcome) (count : Nat) :
    (answer session [] outcome).after count = answer session [] outcome := by
  induction count with
  | zero => rfl
  | succ count ih => rw [after, ih]; rfl

theorem owner_of_ends (hturn : (moment.after since).turn = .begins delivery)
    (hcurrent : moment.current? ending = some since) (hends : (moment.after ending).turn = .ends owner) :
    delivery.channel.owner = owner := by
  obtain ⟨channel, notice, handled, htask, rfl⟩ := task_of_ends hends
  rw [Turn.begins.inj (hturn.symm.trans (underWay_of_publish htask hcurrent).began)]

section

variable {session : Session} {channel heard : Channel} {notice : Notice} {line : Log.Line}
  (hchannel : session.channel? owner = some channel) (howner : channel.owner = owner)
  (habsorb : channel.absorb notice = .ok (heard, line)) (hpublishes : heard.publishes notice = true)

include hchannel howner habsorb hpublishes

/-- If hearing a notice comes to an end within some limit, then the delivery has ended before that, and what it
ended with is the answer. -/
theorem exists_ends_of_notify {limit : Nat} {outcome : Outcome} {final : Session}
    (hnotify : Session.notify (Session.exec limit) owner notice session = some (outcome, final)) :
    let start : Moment := ⟨session, .hear owner notice, []⟩
    ∃ ending, start.current? ending = some 0 ∧ (start.after ending).turn = .ends owner ∧
      outcome = .ok (.flag ((start.verdicts 0 ending).any accepts)) ∧
      final = (start.after (ending + 1)).session := by
  intro start
  have hturn : (start.after 0).turn = _ := (hear_of_absorb hchannel habsorb hpublishes []).1
  obtain ⟨stop, hstop⟩ :=
    Session.notify_traces (Session.exec_traced limit) owner notice session [] outcome final hnotify
  change start.after stop = answer final [] outcome at hstop
  have hpos : 0 < stop := by
    refine Nat.pos_of_ne_zero ?_
    rintro rfl
    cases hstop
  have hbegun : 0 ∈ start.begun 1 := by
    rw [begun_succ_of_begins hturn]
    exact List.mem_cons_self
  have hnone : start.deliveries = [] := rfl
  have hover : 0 ∉ start.begun stop := by
    have hlength := length_begun hnone stop
    rw [hstop] at hlength
    rw [List.eq_nil_of_length_eq_zero hlength]
    exact List.not_mem_nil
  obtain ⟨ending, other, -, hlt, hcurrent, hends⟩ := exists_ends hbegun hpos hover
  have hother : owner = other := by
    rw [← owner_of_ends hturn hcurrent hends, Channel.eq_hear_of_absorb habsorb]
    exact howner.symm
  obtain ⟨-, hafter⟩ := after_ends hturn hcurrent hends
  obtain ⟨more, rfl⟩ := Nat.exists_eq_add_of_le (Nat.succ_le_of_lt hlt)
  -- The answer of the delivery is the answer to the notice, since nothing else goes on.
  have hsame : answer final [] outcome =
      answer ((start.after ending).session.endPublishing other) []
        (.ok (.flag ((start.verdicts 0 ending).any accepts))) := by
    rw [← hstop, after_add, hafter]
    exact after_answer _ _ more
  refine ⟨ending, hcurrent, hother ▸ hends, Task.answer.inj (congrArg Moment.task hsame), ?_⟩
  rw [hafter]
  exact congrArg Moment.session hsame

/-- A delivery to subscribers that deal with nothing but subscriptions comes to an end, and does not drop the
channel. -/
theorem exists_ends_of_isLocal (hlocal : ∀ entry ∈ channel.subscriptions.active, entry.2.IsLocal)
    (limit : Nat) :
    let start : Moment := ⟨session, .hear owner notice, []⟩
    ∃ ending, start.current? ending = some 0 ∧ (start.after ending).turn = .ends owner ∧
      start.StaysDropped owner ending ∧
      Session.notify (Session.exec (limit + 1)) owner notice session =
        some (.ok (.flag ((start.verdicts 0 ending).any accepts)), (start.after (ending + 1)).session) := by
  intro start
  have hnext := (hear_of_absorb hchannel habsorb hpublishes []).2
  have hlocal' : ∀ entry ∈ heard.subscriptions.active, entry.2.IsLocal := by
    rw [Channel.eq_hear_of_absorb habsorb]
    exact hlocal
  have hplain : Plain start.next := hnext ▸ .publishes hlocal'
  have hdrops : ∀ count, (start.after count).drops owner = false := by
    intro count
    cases count with
    | zero => rfl
    | succ count =>
        rw [← after_next]
        exact (hplain.after count).drops owner
  obtain ⟨outcome, final, hrun, -⟩ := Session.publish_ends_of_isLocal hlocal' notice
    ((session.modifyChannel owner fun _ => heard).log [line])
  have hnotify := (Session.notify_eq_of_absorb hchannel habsorb).trans hrun
  obtain ⟨ending, hcurrent, hends, rfl, rfl⟩ :=
    exists_ends_of_notify hchannel howner habsorb hpublishes hnotify
  refine ⟨ending, hcurrent, hends, staysDropped_of_drops ?_ fun count _ => hdrops count, hnotify⟩
  rw [Server.table?]
  exact (congrArg (fun found => (Option.map Channel.subscriptions found).isSome) hchannel).trans rfl

end

/-- **One delivery.** Nobody is called about a notice but those that were subscribed when the delivery began,
each at most once and in the order of their subscriptions. Whoever was subscribed is called unless a subscriber
that was called earlier has cancelled it, provided that the channel is not dropped and made again meanwhile.
Everybody who was called gives one answer. One that fails is logged once, and nothing else is done about
answers. The delivery ends with whether one of them accepted the notice. If hearing the notice comes to an end
within some limit, that is the answer, and with subscribers that subscribe and cancel, accept, decline and
fail, it always comes to an end. -/
theorem deliveries_call_the_subscribed (session : Session) (owner : MemberId) (channel heard : Channel)
    (notice : Notice) (line : Log.Line) (hchannel : session.channel? owner = some channel)
    (howner : channel.owner = owner) (habsorb : channel.absorb notice = .ok (heard, line))
    (hpublishes : heard.publishes notice = true) :
    let start : Moment := ⟨session, .hear owner notice, []⟩
    let active := channel.subscriptions.active
    (∀ ending, start.current? ending = some 0 → (start.after ending).turn = .ends owner →
        (start.called 0 ending).Sublist active ∧
        (start.StaysDropped owner ending → ∀ entry ∈ active,
          (entry ∈ start.called 0 ending ↔
            ¬∃ count < ending, ∃ caller, (start.called 0 count).getLast? = some caller ∧ caller.1 < entry.1 ∧
              (start.after count).revokes owner entry.1 = true)) ∧
        (start.verdicts 0 ending).length = (start.called 0 ending).length ∧
        start.after (ending + 1) = answer ((start.after ending).session.endPublishing owner) []
          (.ok (.flag ((start.verdicts 0 ending).any accepts)))) ∧
      (∀ count verdict, start.current? count = some 0 → (start.after count).turn = .answers verdict →
        (start.after (count + 1)).session = (start.after count).session.log (heard.complaints verdict)) ∧
      (∀ limit outcome final, Session.notify (Session.exec limit) owner notice session = some (outcome, final) →
        ∃ ending, start.current? ending = some 0 ∧ (start.after ending).turn = .ends owner ∧
          outcome = .ok (.flag ((start.verdicts 0 ending).any accepts)) ∧
          final = (start.after (ending + 1)).session) ∧
      ∀ limit, (∀ entry ∈ active, entry.2.IsLocal) →
        ∃ ending, start.current? ending = some 0 ∧ (start.after ending).turn = .ends owner ∧
          start.StaysDropped owner ending ∧
          Session.notify (Session.exec (limit + 1)) owner notice session =
            some (.ok (.flag ((start.verdicts 0 ending).any accepts)), (start.after (ending + 1)).session) := by
  intro start active
  have hturn : (start.after 0).turn = _ := (hear_of_absorb hchannel habsorb hpublishes []).1
  have hheard := Channel.eq_hear_of_absorb habsorb
  have howner' : heard.owner = owner := by
    rw [hheard]
    exact howner
  have hactive : heard.subscriptions.active = active := by rw [hheard]; rfl
  have hpublishing : session.publishing = start.deliveries.map (·.channel.owner) ++ session.publishing := rfl
  have htable : session.subscriptions? owner = some channel.subscriptions := by
    rw [Session.subscriptions?, hchannel]
  refine ⟨fun ending hcurrent hends => ⟨?_, fun hstays entry hentry => ?_, ?_⟩, ?_, ?_, ?_⟩
  · rw [← hactive]
    exact called_sublist hturn hcurrent hends
  · have hiff := mem_called_iff_not_exists hturn hpublishing (howner' ▸ htable) hactive hcurrent hends
      (howner' ▸ hstays) hentry
    rw [howner'] at hiff
    exact hiff
  · exact after_ends hturn hcurrent hends
  · exact fun count verdict hcurrent hanswers => session_of_answers hturn hcurrent hanswers
  · exact fun limit outcome final hnotify =>
      exists_ends_of_notify hchannel howner habsorb hpublishes hnotify
  · exact fun limit hlocal => exists_ends_of_isLocal hchannel howner habsorb hpublishes hlocal limit

/-- A channel with two subscribers, the first of which cancels the second. -/
def cancellingSession (owner first second : MemberId) : Session :=
  ((Session.onChannel ⟨.absent, .debug⟩ owner).subscribe owner
    ⟨first, fun _ _ _ => .perform (.cancel second) fun _ => .finish (.ok true)⟩).subscribe owner
    ⟨second, fun _ _ _ => .finish (.ok true)⟩

/-- The second subscriber is cancelled before its turn. -/
theorem second_subscriber_is_not_called :
    let start : Moment := ⟨cancellingSession [65] [49] [50], .hear [65] (.control .selfEnter), []⟩
    ∃ channel heard line, start.session.channel? [65] = some channel ∧ channel.owner = [65] ∧
      channel.absorb (.control .selfEnter) = .ok (heard, line) ∧
      heard.publishes (.control .selfEnter) = true ∧
      start.current? 7 = some 0 ∧ (start.after 7).turn = .ends [65] ∧ start.StaysDropped [65] 7 ∧
      ∃ entry ∈ channel.subscriptions.active, entry ∉ start.called 0 7 := by
  have hstays : StaysDropped [65]
      ⟨cancellingSession [65] [49] [50], .hear [65] (.control .selfEnter), []⟩ 7 := by decide
  refine ⟨_, _, _, rfl, rfl, rfl, rfl, rfl, rfl, hstays, (1, _), List.mem_cons_of_mem _ List.mem_cons_self,
    fun hcalled => ?_⟩
  have hends := (deliveries_call_the_subscribed (cancellingSession [65] [49] [50]) [65] _ _
    (.control .selfEnter) _ rfl rfl rfl rfl).1 7 rfl rfl
  exact (hends.2.1 hstays (1, _) (List.mem_cons_of_mem _ List.mem_cons_self)).1 hcalled
    ⟨3, by decide, (0, _), rfl, by decide, rfl⟩

end Moment

end GroupChat
