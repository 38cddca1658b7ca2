import Mathlib.Data.List.Basic
import GroupChat.Proofs.Moments

/-!
# Deliveries under way

While a subscriber is called it may have further notices delivered, so that several deliveries are under way
at once. The latest of them is the one that goes on. Each moment does at most one thing to it: a
subscriber has its turn, the one that was called answers, or the delivery ends. Main statement: the
deliveries under way are those that have begun and not ended, and of each of them what was heard when it
began, who has had a turn and what was answered account for all that is left of it.
-/

namespace GroupChat

/-- Subscribers are called one after the other: who is still to have a turn, whether somebody has accepted
the notice, whether somebody is being called, and what goes on once the delivery has ended. -/
structure Delivery where
  channel : Channel
  notice : Notice
  waiting : List (Nat × Subscriber)
  handled : Bool
  calling : Bool
  below : List Frame

def Task.delivery? (below : List Frame) : Task → Option Delivery
  | .publish channel notice waiting handled => some ⟨channel, notice, waiting, handled, false, below⟩
  | _ => none

def Frame.deliveries : List Frame → List Delivery
  | [] => []
  | .calling channel notice waiting handled :: below =>
      ⟨channel, notice, waiting, handled, true, below⟩ :: Frame.deliveries below
  | _ :: below => Frame.deliveries below

/-- Whether a subscriber that comes to this verdict has accepted the notice. -/
def accepts : Except Bytes Bool → Bool
  | .ok handled => handled
  | .error _ => false

/-- What a moment does to the deliveries that are under way. -/
inductive Turn where
  | begins (delivery : Delivery)
  | calls (key : Nat) (subscriber : Subscriber)
  /-- The subscriber was cancelled before its turn. -/
  | skips (key : Nat) (subscriber : Subscriber)
  | answers (verdict : Except Bytes Bool)
  | ends (owner : MemberId)
  | rests

/-- A turn that a subscriber had: when, and whether it was called. -/
structure Visit where
  count : Nat
  key : Nat
  subscriber : Subscriber
  called : Bool

def Visit.entry (visit : Visit) : Nat × Subscriber := (visit.key, visit.subscriber)

namespace Turn

def effect : Turn → List Delivery → List Delivery
  | .begins delivery, deliveries => delivery :: deliveries
  | .calls _ _, delivery :: rest =>
      { delivery with waiting := delivery.waiting.tail, calling := true } :: rest
  | .skips _ _, delivery :: rest => { delivery with waiting := delivery.waiting.tail } :: rest
  | .answers verdict, delivery :: rest =>
      { delivery with handled := delivery.handled || accepts verdict, calling := false } :: rest
  | .ends _, deliveries => deliveries.tail
  | _, deliveries => deliveries

def visit? (count : Nat) : Turn → Option Visit
  | .calls key subscriber => some ⟨count, key, subscriber, true⟩
  | .skips key subscriber => some ⟨count, key, subscriber, false⟩
  | _ => none

def verdict? : Turn → Option (Except Bytes Bool)
  | .answers verdict => some verdict
  | _ => none

end Turn

namespace Moment

/-- The deliveries that are under way, the latest first. -/
def deliveries (moment : Moment) : List Delivery :=
  (moment.task.delivery? moment.stack).toList ++ Frame.deliveries moment.stack

def turn (moment : Moment) : Turn :=
  match moment.task with
  | .hear _ _ =>
      match moment.next.task.delivery? moment.next.stack with
      | some delivery => .begins delivery
      | none => .rests
  | .publish channel _ ((key, subscriber) :: _) _ =>
      if moment.session.isSubscribed channel.owner key then .calls key subscriber
      else .skips key subscriber
  | .publish channel _ [] _ => .ends channel.owner
  | .run (.finish verdict) =>
      match moment.stack with
      | .calling _ _ _ _ :: _ => .answers verdict
      | _ => .rests
  | _ => .rests

variable {session : Session} {stack : List Frame} {command : Command}

/-- A command that calls nobody leaves nothing but its answer. -/
theorem deliveries_immediate
    (hask : ask session stack command =
      match Session.step (fun _ => failure) 0 command session with
      | none => ⟨session, .ask command, stack⟩
      | some (outcome, next) => answer next stack outcome) :
    (ask session stack command).deliveries = Frame.deliveries stack := by
  rw [hask]
  split
  · rfl
  · rfl

theorem deliveries_send (id : MemberId) (action : Action) (session : Session) (stack : List Frame) :
    (send session stack id action).deliveries = Frame.deliveries stack := by
  unfold send
  split
  · rfl
  · split
    · rfl
    · split
      · rfl
      · rfl
      · rfl
      · rfl

/-- Taking up a command begins no delivery: a notice has to be heard first. -/
theorem deliveries_ask (command : Command) (session : Session) (stack : List Frame) :
    (ask session stack command).deliveries = Frame.deliveries stack := by
  cases command with
  | send id action =>
      cases action with
      | error error => rfl
      | ok action => exact deliveries_send id action _ stack
  | notify id notice =>
      cases notice with
      | error error => rfl
      | ok notice => rfl
  | deliver id =>
      cases id with
      | some id => rfl
      | none =>
          rw [ask]
          split
          · rfl
          · rfl
  | deliverAll => rfl
  | run => rfl
  | _ => exact deliveries_immediate rfl

theorem deliveries_drained (received : Option Nat) (delivered : Nat) (session : Session)
    (stack : List Frame) :
    (drained session stack received delivered).deliveries = Frame.deliveries stack := by
  unfold drained
  split
  · rfl
  · split
    · rfl
    · rfl

theorem deliveries_takeOutcome (outcome : Outcome) (session : Session) (stack : List Frame) :
    (takeOutcome session outcome stack).deliveries = Frame.deliveries stack := by
  unfold takeOutcome
  split
  · cases outcome with
    | error failure => rfl
    | ok value => rfl
  · cases outcome with
    | error failure => rfl
    | ok value => rfl
  · rfl

/-- **One moment.** What a moment does to the deliveries that are under way is its turn. -/
theorem deliveries_next (moment : Moment) : moment.next.deliveries = moment.turn.effect moment.deliveries := by
  obtain ⟨session, task, stack⟩ := moment
  cases task with
  | run program =>
      cases program with
      | perform command next => rfl
      | finish verdict =>
          cases stack with
          | nil => rfl
          | cons frame stack =>
              cases frame with
              | calling channel notice waiting handled =>
                  cases verdict with
                  | ok more => rfl
                  | error text =>
                      exact congrArg (Delivery.mk channel notice waiting · false stack :: _)
                        (Bool.or_false handled).symm
              | carrying =>
                  cases verdict with
                  | ok more => rfl
                  | error text => rfl
              | _ => rfl
  | ask command => exact deliveries_ask command session stack
  | hear id notice =>
      have hstack := stack_hear session stack id notice
      simp only [turn, next, deliveries, hstack]
      cases (hear session stack id notice).task.delivery? stack with
      | none => rfl
      | some delivery => rfl
  | publish channel notice waiting handled =>
      cases waiting with
      | nil => rfl
      | cons entry waiting =>
          simp only [turn, next, publish]
          split
          · rfl
          · rfl
  | deliver id =>
      simp only [next, deliver]
      split
      · rfl
      · rfl
  | drain received delivered =>
      simp only [next, drain]
      split
      · exact deliveries_drained received delivered session stack
      · rfl
  | settle =>
      simp only [next, settle]
      split
      · rfl
      · rename_i result later _
        cases result with
        | error failure => rfl
        | ok received => rfl
  | answer outcome => exact deliveries_takeOutcome outcome session stack

/-- What is done at a moment, and the turn that it is. -/
inductive Takes (moment : Moment) : Turn → Prop
  | begins {id : MemberId} {channel : Channel} {server : Server} {delivery : Delivery} {line : Log.Line}
      (htask : moment.task = .hear id delivery.notice)
      (hchannel : moment.session.channel? id = some channel)
      (hnotify : moment.session.server.notify id channel delivery.notice =
        .ok (server, delivery.channel, line))
      (hpublishes : delivery.channel.publishes delivery.notice = true)
      (hwaiting : delivery.waiting = delivery.channel.subscriptions.active)
      (hhandled : delivery.handled = false) (hcalling : delivery.calling = false)
      (hbelow : delivery.below = moment.stack) : Takes moment (.begins delivery)
  | calls {channel : Channel} {notice : Notice} {key : Nat} {subscriber : Subscriber}
      {waiting : List (Nat × Subscriber)} {handled : Bool}
      (htask : moment.task = .publish channel notice ((key, subscriber) :: waiting) handled)
      (hsubscribed : moment.session.isSubscribed channel.owner key = true) :
      Takes moment (.calls key subscriber)
  | skips {channel : Channel} {notice : Notice} {key : Nat} {subscriber : Subscriber}
      {waiting : List (Nat × Subscriber)} {handled : Bool}
      (htask : moment.task = .publish channel notice ((key, subscriber) :: waiting) handled)
      (hsubscribed : moment.session.isSubscribed channel.owner key = false) :
      Takes moment (.skips key subscriber)
  | answers {verdict : Except Bytes Bool} {channel : Channel} {notice : Notice}
      {waiting : List (Nat × Subscriber)} {handled : Bool} {stack : List Frame}
      (htask : moment.task = .run (.finish verdict))
      (hstack : moment.stack = .calling channel notice waiting handled :: stack) :
      Takes moment (.answers verdict)
  | ends {channel : Channel} {notice : Notice} {handled : Bool}
      (htask : moment.task = .publish channel notice [] handled) : Takes moment (.ends channel.owner)
  | rests (htask : moment.task.delivery? moment.stack = none) : Takes moment .rests

/-- A delivery begins when a channel takes a notice, with all its subscribers waiting. -/
theorem takes_hear (id : MemberId) (notice : Notice) (session : Session) (stack : List Frame) :
    Takes ⟨session, .hear id notice, stack⟩ (turn ⟨session, .hear id notice, stack⟩) := by
  cases hchannel : session.channel? id with
  | none =>
      simp only [turn, next, hear, hchannel]
      exact .rests rfl
  | some channel =>
      cases hnotify : session.server.notify id channel notice with
      | error failure =>
          simp only [turn, next, hear, hchannel, hnotify]
          exact .rests rfl
      | ok heard =>
          obtain ⟨server, heard, line⟩ := heard
          by_cases hpublishes : heard.publishes notice = true
          · simp only [turn, next, hear, hchannel, hnotify, hpublishes, if_true]
            exact .begins rfl hchannel hnotify hpublishes rfl rfl rfl rfl
          · simp only [turn, next, hear, hchannel, hnotify, hpublishes]
            exact .rests rfl

theorem takes_turn (moment : Moment) : Takes moment moment.turn := by
  obtain ⟨session, task, stack⟩ := moment
  cases task with
  | hear id notice => exact takes_hear id notice session stack
  | publish channel notice waiting handled =>
      cases waiting with
      | nil => exact .ends rfl
      | cons entry waiting =>
          simp only [turn]
          split
          · rename_i hsubscribed
            exact .calls rfl hsubscribed
          · rename_i hsubscribed
            exact .skips rfl (Bool.eq_false_iff.2 hsubscribed)
  | run program =>
      cases program with
      | perform command next => exact .rests rfl
      | finish verdict =>
          simp only [turn]
          split
          · exact .answers rfl rfl
          · exact .rests rfl
  | _ => exact .rests rfl

variable {moment : Moment} {key : Nat} {owner : MemberId}

/-- A subscriber has a turn in what is being published, and is called if it is still subscribed. -/
theorem task_of_visit? {count : Nat} {visit : Visit} (hvisit : moment.turn.visit? count = some visit) :
    ∃ channel notice waiting handled, moment.task = .publish channel notice (visit.entry :: waiting) handled ∧
      moment.session.isSubscribed channel.owner visit.key = visit.called := by
  have htakes := moment.takes_turn
  generalize moment.turn = turn at hvisit htakes
  cases htakes with
  | calls htask hsubscribed =>
      cases hvisit
      exact ⟨_, _, _, _, htask, hsubscribed⟩
  | skips htask hsubscribed =>
      cases hvisit
      exact ⟨_, _, _, _, htask, hsubscribed⟩
  | _ => cases hvisit

theorem task_of_ends (hturn : moment.turn = .ends owner) :
    ∃ channel notice handled, moment.task = .publish channel notice [] handled ∧ channel.owner = owner := by
  have htakes := moment.takes_turn
  rw [hturn] at htakes
  cases htakes with
  | ends htask => exact ⟨_, _, _, htask, rfl⟩

/-- When the deliveries that are under way so many moments later began, the latest first. -/
def begun (moment : Moment) : (count : Nat) → List Nat
  | 0 => []
  | count + 1 =>
      match (moment.after count).turn with
      | .begins _ => count :: moment.begun count
      | .ends _ => (moment.begun count).tail
      | _ => moment.begun count

/-- When the delivery that goes on so many moments later began. -/
def current? (moment : Moment) (count : Nat) : Option Nat := (moment.begun count).head?

/-- What the turns of the delivery that began then have brought so many moments later. -/
def gathered {α : Type} (brings : Nat → Turn → Option α) (moment : Moment) (since : Nat) :
    (count : Nat) → List α
  | 0 => []
  | count + 1 =>
      moment.gathered brings since count ++
        if moment.current? count = some since then (brings count (moment.after count).turn).toList else []

/-- The turns that subscribers have had so many moments later in the delivery that began then. -/
def visits (moment : Moment) (since count : Nat) : List Visit := moment.gathered Turn.visit? since count

/-- What the subscribers that were called in that delivery have answered. -/
def verdicts (moment : Moment) (since count : Nat) : List (Except Bytes Bool) :=
  moment.gathered (fun _ => Turn.verdict?) since count

/-- The subscribers that were called in that delivery, under the keys of their subscriptions. -/
def called (moment : Moment) (since count : Nat) : List (Nat × Subscriber) :=
  ((moment.visits since count).filter (·.called)).map Visit.entry

variable {since count : Nat}

theorem begun_succ_of_begins {delivery : Delivery} (hturn : (moment.after count).turn = .begins delivery) :
    moment.begun (count + 1) = count :: moment.begun count := by
  rw [begun, hturn]

theorem begun_succ_cases (moment : Moment) (count : Nat) :
    (∃ delivery, (moment.after count).turn = .begins delivery ∧
        moment.begun (count + 1) = count :: moment.begun count) ∨
      (∃ owner, (moment.after count).turn = .ends owner ∧
        moment.begun (count + 1) = (moment.begun count).tail) ∨
      moment.begun (count + 1) = moment.begun count := by
  rw [begun]
  cases (moment.after count).turn with
  | begins delivery => exact .inl ⟨delivery, rfl, rfl⟩
  | ends owner => exact .inr (.inl ⟨owner, rfl, rfl⟩)
  | _ => exact .inr (.inr rfl)

theorem lt_of_mem_begun (hmem : since ∈ moment.begun count) : since < count := by
  induction count with
  | zero => cases hmem
  | succ count ih =>
      rcases moment.begun_succ_cases count with ⟨delivery, -, heq⟩ | ⟨owner, -, heq⟩ | heq
      · rw [heq] at hmem
        rcases List.mem_cons.1 hmem with rfl | hmem
        · exact Nat.lt_succ_self since
        · exact Nat.lt_succ_of_lt (ih hmem)
      · rw [heq] at hmem
        exact Nat.lt_succ_of_lt (ih (List.mem_of_mem_tail hmem))
      · rw [heq] at hmem
        exact Nat.lt_succ_of_lt (ih hmem)

/-- Later deliveries come first. -/
theorem pairwise_begun (moment : Moment) (count : Nat) :
    (moment.begun count).Pairwise fun later earlier => earlier < later := by
  induction count with
  | zero => exact .nil
  | succ count ih =>
      rcases moment.begun_succ_cases count with ⟨delivery, -, heq⟩ | ⟨owner, -, heq⟩ | heq
      · rw [heq]
        exact .cons (fun since hmem => lt_of_mem_begun hmem) ih
      · rw [heq]
        exact ih.tail
      · rw [heq]
        exact ih

/-- A delivery that is under way has been so ever since it began. -/
theorem mem_begun_of_le {later : Nat} (hmem : since ∈ moment.begun later) (hsince : since < count)
    (hle : count ≤ later) : since ∈ moment.begun count := by
  induction later with
  | zero => cases hmem
  | succ later ih =>
      rcases Nat.lt_or_eq_of_le hle with hlt | rfl
      · have hbefore : count ≤ later := Nat.le_of_lt_succ hlt
        have hne : since ≠ later := fun heq => by omega
        rcases moment.begun_succ_cases later with ⟨delivery, -, heq⟩ | ⟨owner, -, heq⟩ | heq
        · rw [heq] at hmem
          exact ih ((List.mem_cons.1 hmem).resolve_left hne) hbefore
        · rw [heq] at hmem
          exact ih (List.mem_of_mem_tail hmem) hbefore
        · rw [heq] at hmem
          exact ih hmem hbefore
      · exact hmem

theorem mem_begun_of_current? (hcurrent : moment.current? count = some since) :
    since ∈ moment.begun count :=
  List.mem_of_mem_head? hcurrent

/-- A delivery ends while it goes on. -/
theorem exists_ends {later : Nat} (hmem : since ∈ moment.begun count) (hle : count ≤ later)
    (hover : since ∉ moment.begun later) :
    ∃ last owner, count ≤ last ∧ last < later ∧ moment.current? last = some since ∧
      (moment.after last).turn = .ends owner := by
  induction later with
  | zero => exact absurd (Nat.le_zero.1 hle ▸ hmem) hover
  | succ later ih =>
      rcases Nat.lt_or_eq_of_le hle with hlt | rfl
      · have hbefore : count ≤ later := Nat.le_of_lt_succ hlt
        by_cases hstill : since ∈ moment.begun later
        · rcases moment.begun_succ_cases later with ⟨delivery, -, heq⟩ | ⟨owner, hends, heq⟩ | heq
          · exact absurd (heq ▸ List.mem_cons_of_mem later hstill) hover
          · refine ⟨later, owner, hbefore, Nat.lt_succ_self later, ?_, hends⟩
            rw [heq] at hover
            cases hbegun : moment.begun later with
            | nil =>
                rw [hbegun] at hstill
                cases hstill
            | cons head rest =>
                rw [hbegun] at hstill hover
                rw [current?, hbegun]
                exact congrArg some ((List.mem_cons.1 hstill).resolve_right hover).symm
          · exact absurd (heq ▸ hstill) hover
        · obtain ⟨last, owner, hfirst, hlast, hends⟩ := ih hbefore hstill
          exact ⟨last, owner, hfirst, Nat.lt_succ_of_lt hlast, hends⟩
      · exact absurd hmem hover

section

variable {α : Type} {brings : Nat → Turn → Option α}

theorem gathered_of_le (hle : count ≤ since) : moment.gathered brings since count = [] := by
  induction count with
  | zero => rfl
  | succ count ih =>
      have hcurrent : moment.current? count ≠ some since := fun hcurrent => by
        have := lt_of_mem_begun (mem_begun_of_current? hcurrent)
        omega
      rw [gathered, if_neg hcurrent, List.append_nil]
      exact ih (Nat.le_of_succ_le hle)

theorem gathered_succ (hcurrent : moment.current? count = some since) :
    moment.gathered brings since (count + 1) =
      moment.gathered brings since count ++ (brings count (moment.after count).turn).toList := by
  rw [gathered, if_pos hcurrent]

theorem gathered_succ_of_ne (hcurrent : moment.current? count ≠ some since) :
    moment.gathered brings since (count + 1) = moment.gathered brings since count := by
  rw [gathered, if_neg hcurrent, List.append_nil]

theorem gathered_succ_of_eq_none (hnone : brings count (moment.after count).turn = none) (since : Nat) :
    moment.gathered brings since (count + 1) = moment.gathered brings since count := by
  rw [gathered, hnone, Option.toList_none, ite_self, List.append_nil]

theorem gathered_isPrefixOf {later : Nat} (hle : count ≤ later) :
    moment.gathered brings since count <+: moment.gathered brings since later := by
  induction hle with
  | refl => exact List.prefix_rfl
  | step _ ih => exact ih.trans (List.prefix_append _ _)

theorem exists_of_mem_gathered {item : α} (hmem : item ∈ moment.gathered brings since count) :
    ∃ earlier < count, moment.current? earlier = some since ∧
      brings earlier (moment.after earlier).turn = some item := by
  induction count with
  | zero => cases hmem
  | succ count ih =>
      rw [gathered] at hmem
      rcases List.mem_append.1 hmem with hmem | hmem
      · obtain ⟨earlier, hlt, hrest⟩ := ih hmem
        exact ⟨earlier, Nat.lt_succ_of_lt hlt, hrest⟩
      · by_cases hcurrent : moment.current? count = some since
        · rw [if_pos hcurrent, Option.mem_toList] at hmem
          exact ⟨count, Nat.lt_succ_self count, hcurrent, hmem⟩
        · rw [if_neg hcurrent] at hmem
          cases hmem

end

theorem count_of_visit? {turn : Turn} {visit : Visit} (hvisit : turn.visit? count = some visit) :
    visit.count = count := by
  cases turn with
  | calls key subscriber =>
      cases hvisit
      rfl
  | skips key subscriber =>
      cases hvisit
      rfl
  | _ => cases hvisit

theorem of_mem_visits {visit : Visit} (hmem : visit ∈ moment.visits since count) :
    visit.count < count ∧ moment.current? visit.count = some since ∧
      (moment.after visit.count).turn.visit? visit.count = some visit := by
  obtain ⟨earlier, hlt, hcurrent, hvisit⟩ := exists_of_mem_gathered hmem
  rw [count_of_visit? hvisit]
  exact ⟨hlt, hcurrent, hvisit⟩

theorem visits_succ {visit : Visit} (hcurrent : moment.current? count = some since)
    (hvisit : (moment.after count).turn.visit? count = some visit) :
    moment.visits since (count + 1) = moment.visits since count ++ [visit] := by
  rw [visits, gathered_succ hcurrent, hvisit]
  rfl

/-- What is left of the delivery that began then, as its turns and the answers given in it leave it. -/
structure UnderWay (moment : Moment) (count since : Nat) (delivery : Delivery) : Prop where
  began : (moment.after since).turn = .begins
    ⟨delivery.channel, delivery.notice,
      (moment.visits since count).map Visit.entry ++ delivery.waiting, false, false, delivery.below⟩
  handled : delivery.handled = (moment.verdicts since count).any accepts
  calling : (moment.called since count).length =
    (moment.verdicts since count).length + delivery.calling.toNat

/-- Every delivery that has begun is under way, above those that were under way when it began. -/
inductive Aligned (moment : Moment) (count : Nat) : List Nat → List Delivery → Prop
  | start (deliveries : List Delivery) : Aligned moment count [] deliveries
  | above {since : Nat} {delivery : Delivery} {earlier : List Nat} (hdelivery : UnderWay moment count since delivery)
      (hearlier : Aligned moment count earlier (moment.after since).deliveries) :
      Aligned moment count (since :: earlier) (delivery :: (moment.after since).deliveries)

theorem UnderWay.succ {delivery : Delivery} (hdelivery : UnderWay moment count since delivery)
    (hvisits : moment.visits since (count + 1) = moment.visits since count)
    (hverdicts : moment.verdicts since (count + 1) = moment.verdicts since count) :
    UnderWay moment (count + 1) since delivery := by
  constructor
  · rw [hvisits]
    exact hdelivery.began
  · rw [hverdicts]
    exact hdelivery.handled
  · rw [called, hvisits, hverdicts]
    exact hdelivery.calling

theorem Aligned.succ {sinces : List Nat} {deliveries : List Delivery}
    (haligned : Aligned moment count sinces deliveries)
    (hsame : ∀ since ∈ sinces, moment.visits since (count + 1) = moment.visits since count ∧
      moment.verdicts since (count + 1) = moment.verdicts since count) :
    Aligned moment (count + 1) sinces deliveries := by
  induction haligned with
  | start deliveries => exact .start deliveries
  | @above since delivery earlier hdelivery _ ih =>
      obtain ⟨hvisits, hverdicts⟩ := hsame since List.mem_cons_self
      exact .above (hdelivery.succ hvisits hverdicts) (ih fun other hother =>
        hsame other (List.mem_cons_of_mem since hother))

theorem Aligned.succ_of_quiet {sinces : List Nat} {deliveries : List Delivery}
    (haligned : Aligned moment count sinces deliveries)
    (hvisit : (moment.after count).turn.visit? count = none)
    (hverdict : (moment.after count).turn.verdict? = none) : Aligned moment (count + 1) sinces deliveries :=
  haligned.succ fun since _ =>
    ⟨gathered_succ_of_eq_none hvisit since, gathered_succ_of_eq_none hverdict since⟩

theorem underWay_of_begins {delivery : Delivery} (hturn : (moment.after count).turn = .begins delivery)
    (hhandled : delivery.handled = false) (hcalling : delivery.calling = false) :
    UnderWay moment (count + 1) count delivery := by
  have hvisits : moment.visits count (count + 1) = [] :=
    (gathered_succ_of_eq_none (by rw [hturn]; rfl) count).trans (gathered_of_le (Nat.le_refl count))
  have hverdicts : moment.verdicts count (count + 1) = [] :=
    (gathered_succ_of_eq_none (by rw [hturn]; rfl) count).trans (gathered_of_le (Nat.le_refl count))
  refine ⟨?_, ?_, ?_⟩
  · rw [hturn, hvisits]
    cases delivery
    cases hhandled
    cases hcalling
    rfl
  · rw [hverdicts]
    exact hhandled
  · rw [called, hvisits, hverdicts, hcalling]
    rfl

/-- A turn of the delivery that goes on concerns no other one. -/
theorem Aligned.succ_of_head {delivery next : Delivery} {below : List Delivery}
    (haligned : Aligned moment count (moment.begun count) (delivery :: below))
    (hnext : ∀ since, moment.current? count = some since → UnderWay moment count since delivery →
      UnderWay moment (count + 1) since next) :
    Aligned moment (count + 1) (moment.begun count) (next :: below) := by
  have hpairwise := moment.pairwise_begun count
  rw [current?] at hnext
  have hothers : ∀ since ∈ (moment.begun count).tail, moment.current? count ≠ some since := by
    rw [current?]
    intro since hsince hcurrent
    cases hbegun : moment.begun count with
    | nil =>
        rw [hbegun] at hcurrent
        cases hcurrent
    | cons head earlier =>
        rw [hbegun] at hsince hcurrent hpairwise
        cases hcurrent
        exact Nat.lt_irrefl _ (List.rel_of_pairwise_cons hpairwise hsince)
  generalize moment.begun count = sinces at *
  cases haligned with
  | start deliveries => exact .start _
  | above hdelivery hearlier =>
      exact .above (hnext _ rfl hdelivery)
        (hearlier.succ fun since hsince =>
          ⟨gathered_succ_of_ne (hothers since hsince), gathered_succ_of_ne (hothers since hsince)⟩)

/-- The next subscriber has its turn, and is called or not. -/
theorem UnderWay.visits {delivery : Delivery} {visit : Visit} {waiting : List (Nat × Subscriber)}
    (hcurrent : moment.current? count = some since)
    (hvisit : (moment.after count).turn.visit? count = some visit)
    (hverdict : (moment.after count).turn.verdict? = none)
    (hwaiting : delivery.waiting = visit.entry :: waiting) (hcalling : delivery.calling = false)
    (hdelivery : UnderWay moment count since delivery) :
    UnderWay moment (count + 1) since { delivery with waiting, calling := visit.called } := by
  have hvisits := visits_succ hcurrent hvisit
  have hverdicts : moment.verdicts since (count + 1) = moment.verdicts since count :=
    gathered_succ_of_eq_none hverdict since
  refine ⟨?_, ?_, ?_⟩
  · rw [hdelivery.began, hvisits, hwaiting, List.map_append, List.append_assoc]
    rfl
  · rw [hverdicts]
    exact hdelivery.handled
  · have hcount := hdelivery.calling
    rw [hcalling] at hcount
    rw [called, hvisits, hverdicts, List.filter_append, List.map_append, List.length_append]
    change (moment.called since count).length + _ = _
    rw [hcount]
    cases hcalled : visit.called with
    | true =>
        rw [List.filter_cons_of_pos hcalled]
        rfl
    | false =>
        rw [List.filter_cons_of_neg (ne_true_of_eq_false hcalled)]
        rfl

theorem UnderWay.answers {delivery : Delivery} {verdict : Except Bytes Bool}
    (hcurrent : moment.current? count = some since)
    (hturn : (moment.after count).turn = .answers verdict) (hcalling : delivery.calling = true)
    (hdelivery : UnderWay moment count since delivery) :
    UnderWay moment (count + 1) since
      { delivery with handled := delivery.handled || accepts verdict, calling := false } := by
  have hvisits : moment.visits since (count + 1) = moment.visits since count :=
    gathered_succ_of_eq_none (by rw [hturn]; rfl) since
  have hverdicts : moment.verdicts since (count + 1) = moment.verdicts since count ++ [verdict] := by
    rw [verdicts, gathered_succ hcurrent, hturn]
    rfl
  refine ⟨?_, ?_, ?_⟩
  · rw [hvisits]
    exact hdelivery.began
  · rw [hverdicts, List.any_append, ← hdelivery.handled, List.any_cons, List.any_nil, Bool.or_false]
  · have hcount := hdelivery.calling
    rw [hcalling] at hcount
    rw [called, hvisits, hverdicts, List.length_append]
    exact hcount

theorem deliveries_of_publish {moment : Moment} {channel : Channel} {notice : Notice}
    {waiting : List (Nat × Subscriber)} {handled : Bool}
    (htask : moment.task = .publish channel notice waiting handled) :
    moment.deliveries =
      ⟨channel, notice, waiting, handled, false, moment.stack⟩ :: Frame.deliveries moment.stack := by
  rw [deliveries, htask]
  rfl

/-- **Deliveries.** At every moment those that have begun and not ended are under way, the latest first. -/
theorem aligned (moment : Moment) (count : Nat) :
    Aligned moment count (moment.begun count) (moment.after count).deliveries := by
  induction count with
  | zero => exact .start _
  | succ count ih =>
      rw [after, deliveries_next]
      have htakes := (moment.after count).takes_turn
      have hbegun : moment.begun (count + 1) = match (moment.after count).turn with
        | .begins _ => count :: moment.begun count
        | .ends _ => (moment.begun count).tail
        | _ => moment.begun count := rfl
      generalize hturn : (moment.after count).turn = turn at htakes hbegun
      rw [hbegun]
      cases htakes with
      | begins htask hchannel hnotify hpublishes hwaiting hhandled hcalling hbelow =>
          exact .above (underWay_of_begins hturn hhandled hcalling)
            (ih.succ_of_quiet (by rw [hturn]; rfl) (by rw [hturn]; rfl))
      | calls htask hsubscribed =>
          rw [deliveries_of_publish htask] at ih ⊢
          exact ih.succ_of_head fun since hcurrent =>
            .visits hcurrent (by rw [hturn]; rfl) (by rw [hturn]; rfl) rfl rfl
      | skips htask hsubscribed =>
          rw [deliveries_of_publish htask] at ih ⊢
          exact ih.succ_of_head fun since hcurrent =>
            .visits hcurrent (by rw [hturn]; rfl) (by rw [hturn]; rfl) rfl rfl
      | answers htask hstack =>
          rw [deliveries, htask, hstack] at ih ⊢
          exact ih.succ_of_head fun since hcurrent => .answers hcurrent hturn rfl
      | ends htask =>
          have hrest := ih.succ_of_quiet (by rw [hturn]; rfl) (by rw [hturn]; rfl)
          generalize moment.begun count = sinces at hrest
          generalize (moment.after count).deliveries = deliveries at hrest
          cases hrest with
          | start deliveries => exact .start _
          | above _ hearlier => exact hearlier
      | rests htask => exact ih.succ_of_quiet (by rw [hturn]; rfl) (by rw [hturn]; rfl)

theorem exists_delivery (hcurrent : moment.current? count = some since) :
    ∃ delivery, (moment.after count).deliveries = delivery :: (moment.after since).deliveries ∧
      UnderWay moment count since delivery := by
  have haligned := moment.aligned count
  rw [current?] at hcurrent
  generalize moment.begun count = sinces at *
  generalize (moment.after count).deliveries = deliveries at *
  cases haligned with
  | start deliveries => cases hcurrent
  | above hdelivery _ =>
      cases hcurrent
      exact ⟨_, rfl, hdelivery⟩

theorem exists_delivery_of_mem (hmem : since ∈ moment.begun count) :
    ∃ delivery ∈ (moment.after count).deliveries, UnderWay moment count since delivery := by
  have haligned := moment.aligned count
  generalize moment.begun count = sinces at *
  generalize (moment.after count).deliveries = deliveries at *
  induction haligned with
  | start deliveries => cases hmem
  | @above head delivery earlier hdelivery _ ih =>
      rcases List.mem_cons.1 hmem with rfl | hmem
      · exact ⟨delivery, List.mem_cons_self, hdelivery⟩
      · obtain ⟨other, hother, hunder⟩ := ih hmem
        exact ⟨other, List.mem_cons_of_mem delivery hother, hunder⟩

/-- What is being published belongs to the delivery that goes on. -/
theorem underWay_of_publish {channel : Channel} {notice : Notice} {waiting : List (Nat × Subscriber)}
    {handled : Bool} (htask : (moment.after count).task = .publish channel notice waiting handled)
    (hcurrent : moment.current? count = some since) :
    UnderWay moment count since
      ⟨channel, notice, waiting, handled, false, (moment.after count).stack⟩ := by
  obtain ⟨delivery, hdeliveries, hdelivery⟩ := exists_delivery hcurrent
  rw [deliveries_of_publish htask] at hdeliveries
  exact (List.cons.inj hdeliveries).1 ▸ hdelivery

/-- Where no delivery was under way at first, there are as many of them as have begun and not ended. -/
theorem length_begun (hnone : moment.deliveries = []) (count : Nat) :
    (moment.begun count).length = (moment.after count).deliveries.length := by
  induction count with
  | zero => exact congrArg List.length hnone.symm
  | succ count ih =>
      rw [after, deliveries_next, begun]
      cases (moment.after count).turn with
      | begins delivery => exact congrArg (· + 1) ih
      | ends owner => rw [Turn.effect, List.length_tail, List.length_tail, ih]
      | rests => exact ih
      | _ =>
          rw [ih]
          cases (moment.after count).deliveries <;> rfl

theorem exists_current? (hnone : moment.deliveries = []) {channel : Channel} {notice : Notice}
    {waiting : List (Nat × Subscriber)} {handled : Bool}
    (htask : (moment.after count).task = .publish channel notice waiting handled) :
    ∃ since, moment.current? count = some since := by
  have hlength := length_begun hnone count
  rw [deliveries_of_publish htask] at hlength
  rw [current?]
  cases hbegun : moment.begun count with
  | nil =>
      rw [hbegun] at hlength
      cases hlength
  | cons since earlier => exact ⟨since, rfl⟩

/-- The subscriptions that have had their turn, and then those that have not, are all that were active. -/
theorem UnderWay.pairwise {delivery : Delivery} (hdelivery : UnderWay moment count since delivery) :
    ((moment.visits since count).map Visit.entry ++ delivery.waiting).Pairwise
      fun first second => first.1 < second.1 := by
  have htakes := (moment.after since).takes_turn
  rw [hdelivery.began] at htakes
  cases htakes with
  | begins htask hchannel hnotify hpublishes hwaiting hhandled hcalling hbelow =>
      exact (congrArg (List.Pairwise fun first second => first.1 < second.1) hwaiting).mpr
        delivery.channel.subscriptions.increasing

/-- Subscribers have their turns in the order of their subscriptions. -/
theorem lt_of_mem_visits {visit other : Visit} (hcurrent : moment.current? count = some since)
    (hvisit : (moment.after count).turn.visit? count = some visit)
    (hother : other ∈ moment.visits since count) : other.key < visit.key := by
  obtain ⟨channel, notice, waiting, handled, htask, -⟩ := task_of_visit? hvisit
  exact (List.pairwise_append.1 (underWay_of_publish htask hcurrent).pairwise).2.2 other.entry
    (List.mem_map_of_mem hother) visit.entry List.mem_cons_self

/-- In a delivery that has come to its end everybody has had a turn. -/
theorem visits_of_ends {delivery : Delivery} (hturn : (moment.after since).turn = .begins delivery)
    (hcurrent : moment.current? count = some since) (hends : (moment.after count).turn = .ends owner) :
    (moment.visits since count).map Visit.entry = delivery.waiting := by
  obtain ⟨channel, notice, handled, htask, -⟩ := task_of_ends hends
  have hbegan := (underWay_of_publish htask hcurrent).began
  rw [hturn] at hbegan
  rw [Turn.begins.inj hbegan, List.append_nil]

end Moment

end GroupChat
