import GroupChat.Proofs.DeliveryOrder
import GroupChat.Proofs.SubscriptionTables

/-!
# What cancelling does

Subscriptions are cancelled by their keys, long after they have been made and maybe after their channel is
gone. No key is given out twice, so that a key stands for one subscription for good. Main statement: the
subscriptions of a channel are those that were made but for those that were cancelled, and cancelling tells
whether it was the first time and the subscriptions are still there.
-/

namespace GroupChat

namespace Moment

variable {moment : Moment} {owner : MemberId} {count : Nat}

/-- All subscriptions to a member's channel that have been made so many moments later. -/
def issued (owner : MemberId) (moment : Moment) : (count : Nat) → Subscriptions Subscriber
  | 0 => (moment.session.subscriptions? owner).getD .empty
  | count + 1 => (moment.after count).issues owner (moment.issued owner count)

theorem active_subset_issues (moment : Moment) (owner : MemberId) (table : Subscriptions Subscriber) :
    table.active ⊆ (moment.issues owner table).active := by
  rw [issues]
  cases moment.subscriber? owner with
  | none => exact fun _ hentry => hentry
  | some subscriber => exact fun _ hentry => List.mem_append_left _ hentry

theorem issued_subset_of_le {later : Nat} (hle : count ≤ later) :
    (moment.issued owner count).active ⊆ (moment.issued owner later).active := by
  induction hle with
  | refl => exact fun _ hentry => hentry
  | step _ ih => exact fun _ hentry => active_subset_issues _ _ _ (ih hentry)

/-- Making a subscription and taking others away do not get into each other's way, since its key is new. -/
theorem issues_without {table : Subscriptions Subscriber} {revoked revokes : Nat → Bool}
    (hbelow : ∀ key, revoked key = true → key < table.nextKey) :
    (moment.issues owner (table.without revoked)).without revokes =
      (moment.issues owner table).without fun key => revoked key || revokes key := by
  have hfresh : revoked table.nextKey = false :=
    Bool.eq_false_iff.2 fun hrevoked => Nat.lt_irrefl _ (hbelow _ hrevoked)
  have hfilter : ∀ entries : List (Nat × Subscriber),
      (entries.filter fun entry => !revoked entry.1).filter (fun entry => !revokes entry.1) =
        entries.filter fun entry => !(revoked entry.1 || revokes entry.1) := by
    intro entries
    rw [List.filter_filter]
    refine List.filter_congr fun entry _ => ?_
    rw [Bool.not_or, Bool.and_comm]
  rw [issues, issues]
  cases moment.subscriber? owner with
  | none => exact Subscriptions.eq_of_active rfl (hfilter table.active)
  | some subscriber =>
      refine Subscriptions.eq_of_active rfl ?_
      have hkept : (table.active ++ [(table.nextKey, subscriber)]).filter (fun entry => !revoked entry.1) =
          table.active.filter (fun entry => !revoked entry.1) ++ [(table.nextKey, subscriber)] := by
        rw [List.filter_append, List.filter_cons_of_pos (by simp [hfresh]), List.filter_nil]
      change ((table.active.filter fun entry => !revoked entry.1) ++ [(table.nextKey, subscriber)]).filter _ =
        (table.active ++ [(table.nextKey, subscriber)]).filter _
      rw [← hkept, hfilter]

/-- What is known of the subscriptions to a member's channel so many moments later. -/
structure Ledger (owner : MemberId) (moment : Moment) (count : Nat) : Prop where
  kept : (moment.after count).session.Holds owner →
    (moment.after count).session.subscriptions? owner =
      some ((moment.issued owner count).without fun key => moment.revoked owner key count)
  gone : ¬(moment.after count).session.Holds owner → (moment.after count).session.subscriptions? owner = none
  handles : ∀ name key, (moment.after count).session.handles.get? name = some (owner, key) →
    ∃ respond, (key, ⟨name, respond⟩) ∈ (moment.issued owner count).active
  revoked : ∀ key, moment.revoked owner key count = true → key < (moment.issued owner count).nextKey

theorem drops_iff : moment.drops owner = true ↔ moment.task = .ask (.drop owner) := by
  obtain ⟨session, task, stack⟩ := moment
  cases task with
  | ask command =>
      cases command with
      | drop id =>
          rw [drops, beq_iff_eq]
          constructor
          · rintro rfl
            rfl
          · intro htask
            cases htask
            rfl
      | _ => exact iff_of_false Bool.false_ne_true (by rintro ⟨⟩)
  | _ => exact iff_of_false Bool.false_ne_true (by rintro ⟨⟩)

theorem head_of_ends (hpublishing : moment.session.publishing = moment.deliveries.map (·.channel.owner))
    {id : MemberId} (hturn : moment.turn = .ends id) :
    moment.session.publishing = id :: moment.session.publishing.tail := by
  obtain ⟨channel, notice, handled, htask, rfl⟩ := task_of_ends hturn
  rw [hpublishing, deliveries_of_publish htask]
  rfl

/-- Subscriptions are there until their channel is dropped, or a last delivery ends after that. -/
theorem holds_next (hpublishing : moment.session.publishing = moment.deliveries.map (·.channel.owner))
    (hdrops : moment.drops owner = false) (hends : moment.turn ≠ .ends owner)
    (hholds : moment.session.Holds owner) : moment.next.session.Holds owner := by
  rcases hholds with hopen | hmem
  · refine .inl fun hclosed => ?_
    have hsome : (moment.session.server.table? owner).isSome = true :=
      Option.isSome_iff_ne_none.2 fun hnone => hopen (Server.table?_eq_none_iff.1 hnone)
    have hlater := isSome_table?_next hdrops hsome
    rw [Server.table?_eq_none_iff.2 hclosed] at hlater
    cases hlater
  · refine .inr ?_
    rw [publishing_next]
    cases hturn : moment.turn with
    | begins delivery => exact List.mem_cons_of_mem _ hmem
    | ends id =>
        rw [head_of_ends hpublishing hturn] at hmem
        refine (List.mem_cons.1 hmem).resolve_left ?_
        rintro rfl
        exact hends hturn
    | _ => exact hmem

section

variable (hstays : moment.session.channel? owner = none → moment.next.session.channel? owner = none)

include hstays

/-- Subscriptions that are gone do not come back. -/
theorem holds_of_holds_next (howned : moment.session.server.Owned) (hholds : moment.next.session.Holds owner) :
    moment.session.Holds owner := by
  rcases hholds with hopen | hmem
  · exact .inl fun hclosed => hopen (hstays hclosed)
  · rw [publishing_next] at hmem
    cases hturn : moment.turn with
    | begins delivery =>
        rw [hturn] at hmem
        rcases List.mem_cons.1 hmem with rfl | hmem
        · obtain ⟨-, channel, hchannel, -⟩ := heard_of_begins howned hturn
          exact .inl (hchannel ▸ Option.some_ne_none channel)
        · exact .inr hmem
    | ends id =>
        rw [hturn] at hmem
        exact .inr (List.mem_of_mem_tail hmem)
    | _ =>
        rw [hturn] at hmem
        exact .inr hmem

theorem subscriptions?_next_of_none (hnone : moment.session.subscriptions? owner = none) :
    moment.next.session.subscriptions? owner = none := by
  cases moment.concerns with
  | subscribes htask hnext =>
      rw [hnext] at hstays ⊢
      rw [Session.subscriptions?_subscribe _ _ _ hstays, hnone, Option.map_none, ite_self]
  | cancels htask hnext =>
      rw [hnext, Session.cancel]
      split
      · exact hnone
      · rw [Session.subscriptions?_unsubscribe, hnone, Option.map_none, ite_self]
  | drops htask hnext => rw [hnext, Session.subscriptions?_drop, hnone, ite_self]
  | begins hsubscriber hrevokes hturn hkeeps hnext =>
      rw [hnext] at hstays ⊢
      exact (hkeeps.subscriptions? hstays).trans hnone
  | ends hsubscriber hrevokes hturn hnext =>
      rw [hnext, Session.subscriptions?_endPublishing, hnone, ite_self]
  | nothing hsubscriber hrevokes hturn hkeeps => exact (hkeeps.subscriptions? hstays).trans hnone

/-- Where subscriptions are no longer held, they are given up. -/
theorem subscriptions?_next_of_not_holds
    (hpublishing : moment.session.publishing = moment.deliveries.map (·.channel.owner))
    (hgone : ¬moment.session.Holds owner → moment.session.subscriptions? owner = none)
    (hholds : ¬moment.next.session.Holds owner) : moment.next.session.subscriptions? owner = none := by
  by_cases hbefore : moment.session.Holds owner
  · by_cases hdrops : moment.drops owner = true
    · have hnext : moment.next.session = moment.session.drop owner := by
        rw [next, drops_iff.1 hdrops]
        rfl
      have hnot : owner ∉ moment.session.publishing := by
        rw [hnext] at hholds
        exact fun hmem => hholds (.inr hmem)
      have hsome : (moment.session.channel? owner).isSome = true :=
        Option.isSome_iff_ne_none.2 (hbefore.resolve_right hnot)
      rw [hnext, Session.subscriptions?_drop, if_pos ⟨rfl, hsome, hnot⟩]
    · by_cases hends : moment.turn = .ends owner
      · obtain ⟨channel, notice, handled, htask, howner⟩ := task_of_ends hends
        have hnext : moment.next.session = moment.session.endPublishing owner := by
          rw [next, htask, ← howner]
          rfl
        rw [hnext] at hholds
        obtain ⟨hclosed, hnot⟩ := not_or.1 hholds
        rw [hnext, Session.subscriptions?_endPublishing, if_pos ⟨rfl, not_not.1 hclosed, hnot⟩]
      · exact absurd (holds_next hpublishing (Bool.eq_false_iff.2 hdrops) hends hbefore) hholds
  · exact subscriptions?_next_of_none hstays (hgone hbefore)

/-- Whoever subscribes does so to a channel that is there. -/
theorem exists_channel_of_subscriber? {subscriber : Subscriber}
    (hsubscriber : moment.subscriber? owner = some subscriber) :
    ∃ channel, moment.session.channel? owner = some channel := by
  cases moment.concerns with
  | @subscribes id name respond htask hnext =>
      rw [subscriber?, htask] at hsubscriber
      by_cases heq : id = owner
      · rw [hnext, heq] at hstays
        refine Option.ne_none_iff_exists'.1 fun hclosed => ?_
        exact Session.channel?_subscribe_ne_none moment.session owner ⟨name, respond⟩ (hstays hclosed)
      · cases (if_neg heq).symm.trans hsubscriber
  | cancels htask hnext =>
      rw [subscriber?, htask] at hsubscriber
      cases hsubscriber
  | drops htask hnext =>
      rw [subscriber?, htask] at hsubscriber
      cases hsubscriber
  | begins hsubscriber' => cases (hsubscriber' owner).symm.trans hsubscriber
  | ends hsubscriber' => cases (hsubscriber' owner).symm.trans hsubscriber
  | nothing hsubscriber' => cases (hsubscriber' owner).symm.trans hsubscriber

omit hstays in
/-- A handle stands for a subscription that is being made, or stood for the same one before. -/
theorem handle_next {name : MemberId} {key : Nat}
    (hhandle : moment.next.session.handles.get? name = some (owner, key)) :
    moment.session.handles.get? name = some (owner, key) ∨
      ∃ respond, moment.subscriber? owner = some ⟨name, respond⟩ ∧
        key = (moment.session.server.mailbox owner).channel.subscriptions.nextKey := by
  cases moment.concerns with
  | @subscribes id other respond htask hnext =>
      rw [hnext, Session.subscribe_openChannel] at hhandle
      rw [Directory.get?_set] at hhandle
      by_cases heq : name = other
      · rw [if_pos heq] at hhandle
        cases hhandle
        exact .inr ⟨respond, by rw [subscriber?, htask, heq]; exact if_pos rfl, rfl⟩
      · rw [if_neg heq] at hhandle
        exact .inl hhandle
  | cancels htask hnext =>
      rw [hnext, Session.cancel] at hhandle
      refine .inl (Eq.trans ?_ hhandle)
      split
      · rfl
      · unfold Session.unsubscribe
        split
        · rfl
        · rfl
  | drops htask hnext =>
      rw [hnext] at hhandle
      exact .inl hhandle
  | begins hsubscriber hrevokes hturn hkeeps hnext =>
      rw [hnext] at hhandle
      exact .inl (hkeeps.handles ▸ hhandle)
  | ends hsubscriber hrevokes hturn hnext =>
      rw [hnext] at hhandle
      exact .inl hhandle
  | nothing hsubscriber hrevokes hturn hkeeps => exact .inl (hkeeps.handles ▸ hhandle)

end

theorem handle_of_revokes {key : Nat} (hrevokes : moment.revokes owner key = true) :
    ∃ name, moment.task = .ask (.cancel name) ∧ moment.session.handles.get? name = some (owner, key) := by
  obtain ⟨name, htask⟩ := task_of_revokes hrevokes
  rw [revokes, htask, beq_iff_eq] at hrevokes
  exact ⟨name, htask, hrevokes⟩

/-- The key of a subscription that is made is the one that is next in the ledger. -/
theorem Ledger.nextKey_eq (hledger : moment.Ledger owner count)
    (hstays : (moment.after count).session.channel? owner = none →
      (moment.after (count + 1)).session.channel? owner = none) {subscriber : Subscriber}
    (hsubscriber : (moment.after count).subscriber? owner = some subscriber) :
    ((moment.after count).session.server.mailbox owner).channel.subscriptions.nextKey =
      (moment.issued owner count).nextKey := by
  obtain ⟨channel, hchannel⟩ := exists_channel_of_subscriber? hstays hsubscriber
  have htable := hledger.kept (.inl (hchannel ▸ Option.some_ne_none channel))
  rw [Session.subscriptions?, hchannel] at htable
  rw [Server.channel_mailbox _ owner hchannel, Option.some.inj htable]
  rfl

/-- **One moment.** The ledger is kept up from one moment to the next. -/
theorem Ledger.succ (hledger : moment.Ledger owner count) (howned : (moment.after count).session.server.Owned)
    (hpublishing : (moment.after count).session.publishing =
      (moment.after count).deliveries.map (·.channel.owner))
    (hstays : (moment.after count).session.channel? owner = none →
      (moment.after (count + 1)).session.channel? owner = none) : moment.Ledger owner (count + 1) := by
  refine ⟨fun hholds => ?_, fun hholds => ?_, fun name key hhandle => ?_, fun key hrevoked => ?_⟩
  · have hbefore := hledger.kept (holds_of_holds_next hstays howned hholds)
    rw [after, subscriptions?_next hstays hbefore hholds, issues_without hledger.revoked]
    rfl
  · exact subscriptions?_next_of_not_holds hstays hpublishing hledger.gone hholds
  · rcases handle_next hhandle with hearlier | ⟨respond, hsubscriber, hkey⟩
    · obtain ⟨respond, hmem⟩ := hledger.handles name key hearlier
      exact ⟨respond, active_subset_issues _ _ _ hmem⟩
    · refine ⟨respond, ?_⟩
      rw [hkey, hledger.nextKey_eq hstays hsubscriber, issued, issues, hsubscriber]
      exact List.mem_append_right _ List.mem_cons_self
  · refine Nat.lt_of_lt_of_le ?_ (nextKey_le_issues (moment.issued owner count))
    rw [Moment.revoked, Bool.or_eq_true] at hrevoked
    rcases hrevoked with hearlier | hrevokes
    · exact hledger.revoked key hearlier
    · obtain ⟨name, -, hhandle⟩ := handle_of_revokes hrevokes
      obtain ⟨respond, hmem⟩ := hledger.handles name key hhandle
      exact (moment.issued owner count).below _ hmem

/-- **Whole runs.** The subscriptions to a channel are those that were made without those that were cancelled. -/
theorem ledger (howned : moment.session.server.Owned)
    (hpublishing : moment.session.publishing = moment.deliveries.map (·.channel.owner)) {channel : Channel}
    (hchannel : moment.session.channel? owner = some channel)
    (hhandles : ∀ name key, moment.session.handles.get? name ≠ some (owner, key))
    (hstays : moment.StaysDropped owner count) : moment.Ledger owner count := by
  induction count with
  | zero =>
      have htable : moment.session.subscriptions? owner = some channel.subscriptions := by
        rw [Session.subscriptions?, hchannel]
      have hissued : moment.issued owner 0 = channel.subscriptions := by
        rw [issued, htable]
        rfl
      refine ⟨fun _ => ?_, fun hholds => ?_, fun name key hhandle => absurd hhandle (hhandles name key),
        fun key hrevoked => Bool.noConfusion hrevoked⟩
      · rw [hissued]
        exact htable.trans (congrArg some (Subscriptions.without_eq_self fun _ => rfl).symm)
      · exact absurd (.inl (hchannel ▸ Option.some_ne_none channel)) hholds
  | succ count ih =>
      have hlater := publishing_after (hpublishing.trans (List.append_nil _).symm) count
      rw [List.append_nil] at hlater
      exact (ih (hstays.of_le (Nat.le_succ count))).succ (owned_after howned count) hlater
        (hstays count (Nat.lt_succ_self count))

/-- Somebody is subscribed if it has subscribed and was not cancelled, as long as there are subscriptions. -/
theorem Ledger.isSubscribed_iff (hledger : moment.Ledger owner count) {key : Nat} :
    (moment.after count).session.isSubscribed owner key = true ↔
      (moment.after count).session.Holds owner ∧
        (∃ subscriber, (key, subscriber) ∈ (moment.issued owner count).active) ∧
        ¬∃ earlier < count, (moment.after earlier).revokes owner key = true := by
  rw [← revoked_iff_exists, Bool.not_eq_true, Session.isSubscribed]
  by_cases hholds : (moment.after count).session.Holds owner
  · rw [hledger.kept hholds, and_iff_right hholds, ← Subscriptions.isActive_iff_exists]
    change ((moment.issued owner count).without _).isActive key = true ↔ _
    rw [Subscriptions.isActive_without, Bool.and_eq_true, Bool.not_eq_true']
  · rw [hledger.gone hholds]
    exact iff_of_false Bool.false_ne_true fun h => hholds h.1

/-- Cancelling takes away the one subscription that the handle stands for. -/
theorem isSubscribed_cancel {session : Session} {name id : MemberId} {key other : Nat}
    (hhandle : session.handles.get? name = some (owner, key)) :
    (session.cancel name).2.isSubscribed id other =
      (session.isSubscribed id other && !(id == owner && other == key)) := by
  rw [Session.cancel, hhandle, Session.isSubscribed, Session.isSubscribed]
  dsimp only
  rw [Session.subscriptions?_unsubscribe]
  by_cases heq : id = owner
  · rw [if_pos heq, heq, beq_self_eq_true, Bool.true_and]
    cases session.subscriptions? owner with
    | none => rfl
    | some table => exact table.isActive_cancel key other
  · rw [if_neg heq, beq_false_of_ne heq, Bool.false_and, Bool.not_false, Bool.and_true]

/-- Whoever is called has subscribed. -/
theorem mem_issued_of_publish (howned : moment.session.server.Owned) {since : Nat}
    (hcurrent : moment.current? count = some since) (hledger : moment.Ledger owner since) {channel : Channel}
    {notice : Notice} {entry : Nat × Subscriber} {waiting : List (Nat × Subscriber)} {handled : Bool}
    (howner : channel.owner = owner)
    (htask : (moment.after count).task = .publish channel notice (entry :: waiting) handled) :
    entry ∈ (moment.issued owner count).active := by
  have hunder := underWay_of_publish htask hcurrent
  obtain ⟨-, before, hbefore, -, hwaiting⟩ := heard_of_begins (owned_after howned since) hunder.began
  dsimp only at hbefore hwaiting
  rw [howner] at hbefore
  have htable := hledger.kept (.inl (hbefore ▸ Option.some_ne_none before))
  rw [Session.subscriptions?, hbefore] at htable
  have hmem : entry ∈ before.subscriptions.active := by
    rw [← hwaiting]
    exact List.mem_append_right _ List.mem_cons_self
  rw [Option.some.inj htable] at hmem
  have hlt := lt_of_mem_begun (mem_begun_of_current? hcurrent)
  exact issued_subset_of_le (Nat.le_of_lt hlt) (List.mem_filter.1 hmem).1

/-- **Cancelling.** Somebody is subscribed to a channel if it has subscribed and was not cancelled, as long as
the channel is there or a delivery is under way in which it was dropped. A subscription has a key that none
before it had, and a handle that stands for it. Cancelling by that handle takes it away and nothing else, and
tells whether it was still there: it is told so once, the first time, unless the channel and its deliveries are
gone. Nobody is called after it was cancelled. All this is about one channel: where one is made again after it
was dropped, that is another one. The moments are those of the session: a program that comes to an end within
some limit does so through them. -/
theorem cancelling_counts_once (logger : Log.Logger) (owner : MemberId) (program : Program) :
    let start : Moment := ⟨.onChannel logger owner, .run program, []⟩
    (∀ count, start.StaysDropped owner (count + 1) →
      ((start.after count).session.Holds owner ↔ (start.after count).session.channel? owner ≠ none ∨
          ∃ delivery ∈ (start.after count).deliveries, delivery.channel.owner = owner) ∧
        (∀ key, (start.after count).session.isSubscribed owner key = true ↔
          (start.after count).session.Holds owner ∧
            (∃ subscriber, (key, subscriber) ∈ (start.issued owner count).active) ∧
            ¬∃ earlier < count, (start.after earlier).revokes owner key = true) ∧
        (∀ name respond, (start.after count).task = .ask (.subscribe owner name respond) →
          (start.after (count + 1)).session.handles.get? name =
              some (owner, (start.issued owner count).nextKey) ∧
            start.issued owner (count + 1) = (start.issued owner count).add ⟨name, respond⟩) ∧
        (∀ name key, (start.after count).task = .ask (.cancel name) →
          (start.after count).session.handles.get? name = some (owner, key) →
            (∃ respond, (key, ⟨name, respond⟩) ∈ (start.issued owner count).active) ∧
            (∃ flag, (start.after (count + 1)).task = .answer (.ok (.flag flag)) ∧
              (flag = true ↔ (start.after count).session.Holds owner ∧
                ¬∃ earlier < count, (start.after earlier).revokes owner key = true)) ∧
            ∀ id other, (start.after (count + 1)).session.isSubscribed id other =
              ((start.after count).session.isSubscribed id other && !(id == owner && other == key))) ∧
        ∀ channel notice key subscriber waiting handled, channel.owner = owner →
          (start.after count).task = .publish channel notice ((key, subscriber) :: waiting) handled →
          (start.after count).turn = .calls key subscriber →
            (key, subscriber) ∈ (start.issued owner count).active ∧
              ¬∃ earlier < count, (start.after earlier).revokes owner key = true) ∧
      ∀ limit verdict final,
        program.run (Session.exec limit) (.onChannel logger owner) = some (verdict, final) →
          ∃ count, start.after count = ⟨final, .run (.finish verdict), []⟩ := by
  intro start
  have howned : start.session.server.Owned := Session.owned_onChannel logger owner
  have hnone : start.deliveries = [] := rfl
  have hpublishing : start.session.publishing = start.deliveries.map (·.channel.owner) := rfl
  have hhandles : ∀ name key, start.session.handles.get? name ≠ some (owner, key) := by
    rintro name key ⟨⟩
  refine ⟨fun count hstays => ?_, fun limit verdict final => Session.leads_to_verdict []⟩
  have hledgers : ∀ earlier ≤ count, start.Ledger owner earlier := fun earlier hle =>
    ledger howned hpublishing (Session.channel?_onChannel logger owner) hhandles
      (hstays.of_le (Nat.le_succ_of_le hle))
  have hledger := hledgers count (Nat.le_refl count)
  refine ⟨?_, fun key => hledger.isSubscribed_iff, fun name respond htask => ?_,
    fun name key htask hhandle => ⟨hledger.handles name key hhandle, ?_, fun id other => ?_⟩, ?_⟩
  · have hlater := publishing_after (hpublishing.trans (List.append_nil _).symm) count
    rw [Session.Holds, hlater, List.append_nil]
    simp only [List.mem_map]
  · have hsubscriber : (start.after count).subscriber? owner = some ⟨name, respond⟩ := by
      rw [subscriber?, htask]
      exact if_pos rfl
    have hnext : (start.after (count + 1)).session =
        ((start.after count).session.openChannel owner).subscribe owner ⟨name, respond⟩ := by
      rw [after, next, htask]
      rfl
    refine ⟨?_, by rw [issued, issues, hsubscriber]⟩
    rw [hnext, Session.subscribe_openChannel, ← hledger.nextKey_eq (hstays count (Nat.lt_succ_self count))
      hsubscriber, Directory.get?_set, if_pos rfl]
  · have hnext : (start.after (count + 1)).task =
        .answer (.ok (.flag ((start.after count).session.cancel name).1)) := by
      rw [after, next, htask]
      rfl
    obtain ⟨respond, hmem⟩ := hledger.handles name key hhandle
    refine ⟨(start.after count).session.isSubscribed owner key, ?_, ?_⟩
    · rw [hnext, Session.cancel, hhandle]
    · rw [hledger.isSubscribed_iff]
      exact and_congr_right fun _ => and_iff_right ⟨_, hmem⟩
  · have hnext : (start.after (count + 1)).session = ((start.after count).session.cancel name).2 := by
      rw [after, next, htask]
      rfl
    rw [hnext, isSubscribed_cancel hhandle]
  · intro channel notice key subscriber waiting handled howner htask hcalls
    obtain ⟨since, hcurrent⟩ := exists_current? hnone htask
    have hlt := lt_of_mem_begun (mem_begun_of_current? hcurrent)
    obtain ⟨other, _, _, _, htask', hsubscribed⟩ := task_of_visit? (congrArg (Turn.visit? count) hcalls)
    obtain ⟨rfl, -⟩ := Task.publish.inj (htask.symm.trans htask')
    rw [howner] at hsubscribed
    exact ⟨mem_issued_of_publish howned hcurrent (hledgers since (Nat.le_of_lt hlt)) howner htask,
      (hledger.isSubscribed_iff.1 hsubscribed).2.2⟩

/-- A subscriber that drops the channel when it is called, and is cancelled after that. -/
def droppingProgram (owner name : MemberId) : Program :=
  .perform (.subscribe owner name fun _ _ _ =>
    .perform (.drop owner) fun _ => .perform (.cancel name) fun _ => .finish (.ok true)) fun _ =>
  .perform (.notify owner (.ok (.control .selfEnter))) fun _ =>
  .perform (.cancel name) fun _ => .finish (.ok true)

/-- The subscriber is cancelled once more when the delivery is over, and then the program comes to its end. -/
theorem cancelling_again_counts_for_nothing :
    let start : Moment := ⟨.onChannel ⟨.absent, .debug⟩ [65], .run (droppingProgram [65] [49]), []⟩
    start.StaysDropped [65] (17 + 1) ∧ (start.after 17).task = .ask (.cancel [49]) ∧
      (start.after 17).session.handles.get? [49] = some ([65], 0) ∧
      (∃ flag, (start.after (17 + 1)).task = .answer (.ok (.flag flag)) ∧
        (flag = true ↔ (start.after 17).session.Holds [65] ∧
          ¬∃ earlier < 17, (start.after earlier).revokes [65] 0 = true)) ∧
      ∃ final count, (droppingProgram [65] [49]).run (Session.exec 9)
          (.onChannel ⟨.absent, .debug⟩ [65]) = some (.ok true, final) ∧
        start.after count = ⟨final, .run (.finish (.ok true)), []⟩ := by
  have hstays : StaysDropped [65] ⟨.onChannel ⟨.absent, .debug⟩ [65], .run (droppingProgram [65] [49]), []⟩
      (17 + 1) := by decide
  obtain ⟨hcounts, hends⟩ := cancelling_counts_once ⟨.absent, .debug⟩ [65] (droppingProgram [65] [49])
  obtain ⟨-, -, -, hcancel, -⟩ := hcounts 17 hstays
  obtain ⟨count, hcount⟩ := hends 9 (.ok true) _ rfl
  exact ⟨hstays, rfl, rfl, (hcancel [49] 0 rfl rfl).2.1, _, count, rfl, hcount⟩

/-- When it is cancelled for the first time its channel is gone already, but the delivery is not over. -/
theorem cancelling_may_count_once_dropped :
    let start : Moment := ⟨.onChannel ⟨.absent, .debug⟩ [65], .run (droppingProgram [65] [49]), []⟩
    start.StaysDropped [65] 20 ∧ (start.after 11).session.channel? [65] = none ∧
      (start.after 11).task = .ask (.cancel [49]) ∧
      (start.after 11).session.handles.get? [49] = some ([65], 0) ∧
      (∀ earlier < 11, (start.after earlier).revokes [65] 0 = false) ∧
      (start.after 12).task = .answer (.ok (.flag true)) :=
  ⟨by decide, rfl, rfl, rfl, by decide, rfl⟩

end Moment

end GroupChat
