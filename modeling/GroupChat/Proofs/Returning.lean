import GroupChat.Proofs.Retention
import Mathlib.Data.Nat.Find

/-!
# What a command comes back with

While something is done that others wait for, those who wait are not looked at: it goes on as it would by
itself, as long as it goes on. Main statement: whoever waits on top of the others waits for what the task above
comes to by itself, and for nothing else.
-/

namespace GroupChat

namespace Moment

/-- The same moment, with more frames waiting below. -/
def onto (moment : Moment) (below : List Frame) : Moment :=
  { moment with stack := moment.stack ++ below }

/-- Something has come to its end, and nobody waits for it. -/
def Rests (moment : Moment) : Prop :=
  moment.stack = [] ∧
    ((∃ verdict, moment.task = .run (.finish verdict)) ∨ ∃ outcome, moment.task = .answer outcome)

variable {session : Session} {stack below : List Frame}

theorem send_onto (id : MemberId) (action : Action) :
    send session (stack ++ below) id action = (send session stack id action).onto below := by
  unfold send
  split
  · rfl
  · split
    · rfl
    · split <;> rfl

theorem ask_onto (command : Command) :
    ask session (stack ++ below) command = (ask session stack command).onto below := by
  cases command with
  | send id action =>
      cases action with
      | error error => rfl
      | ok action => exact send_onto id action
  | notify id notice => cases notice <;> rfl
  | deliver id =>
      cases id with
      | some id => rfl
      | none =>
          simp only [ask]
          split <;> rfl
  | deliverAll => rfl
  | run => rfl
  | _ =>
      simp only [ask]
      split <;> rfl

theorem hear_onto (id : MemberId) (notice : Notice) :
    hear session (stack ++ below) id notice = (hear session stack id notice).onto below := by
  unfold hear
  split
  · rfl
  · split
    · rfl
    · split <;> rfl

theorem publish_onto (channel : Channel) (notice : Notice) (handled : Bool)
    (waiting : List (Nat × Subscriber)) :
    publish session (stack ++ below) channel notice handled waiting =
      (publish session stack channel notice handled waiting).onto below := by
  unfold publish
  split
  · rfl
  · split <;> rfl

theorem deliver_onto (id : MemberId) :
    deliver session (stack ++ below) id = (deliver session stack id).onto below := by
  unfold deliver
  split <;> rfl

theorem drained_onto (received : Option Nat) (delivered : Nat) :
    drained session (stack ++ below) received delivered =
      (drained session stack received delivered).onto below := by
  unfold drained
  split
  · rfl
  · split <;> rfl

theorem drain_onto (received : Option Nat) (delivered : Nat) :
    drain session (stack ++ below) received delivered = (drain session stack received delivered).onto below := by
  unfold drain
  split
  · exact drained_onto received delivered
  · rfl

theorem settle_onto : settle session (stack ++ below) = (settle session stack).onto below := by
  unfold settle
  split
  · rfl
  · rename_i result next _
    cases result <;> rfl

theorem takeVerdict_onto (verdict : Except Bytes Bool) (hstack : stack ≠ []) :
    takeVerdict session verdict (stack ++ below) = (takeVerdict session verdict stack).onto below := by
  cases stack with
  | nil => exact absurd rfl hstack
  | cons frame stack => cases frame <;> cases verdict <;> rfl

theorem takeOutcome_onto (outcome : Outcome) (hstack : stack ≠ []) :
    takeOutcome session outcome (stack ++ below) = (takeOutcome session outcome stack).onto below := by
  cases stack with
  | nil => exact absurd rfl hstack
  | cons frame stack => cases frame <;> cases outcome <;> rfl

variable {moment : Moment}

/-- **One moment.** What goes on does not look at what waits below it. -/
theorem next_onto (hrests : ¬moment.Rests) (below : List Frame) :
    (moment.onto below).next = moment.next.onto below := by
  obtain ⟨session, task, stack⟩ := moment
  cases task with
  | run program =>
      cases program with
      | perform command next => rfl
      | finish verdict => exact takeVerdict_onto verdict fun hstack => hrests ⟨hstack, .inl ⟨verdict, rfl⟩⟩
  | ask command => exact ask_onto command
  | hear id notice => exact hear_onto id notice
  | publish channel notice waiting handled => exact publish_onto channel notice handled waiting
  | deliver id => exact deliver_onto id
  | drain received delivered => exact drain_onto received delivered
  | settle => exact settle_onto
  | answer outcome => exact takeOutcome_onto outcome fun hstack => hrests ⟨hstack, .inr ⟨outcome, rfl⟩⟩

theorem next_of_rests (hrests : moment.Rests) : moment.next = moment := by
  obtain ⟨session, task, stack⟩ := moment
  obtain ⟨rfl, ⟨verdict, rfl⟩ | ⟨outcome, rfl⟩⟩ := hrests
  · rfl
  · rfl

/-- Up to its end, what goes on does so on top of whatever waits below. -/
theorem after_onto {count : Nat} (hgoes : ∀ earlier < count, ¬(moment.after earlier).Rests)
    (below : List Frame) : (moment.onto below).after count = (moment.after count).onto below := by
  induction count with
  | zero => rfl
  | succ count ih =>
      have hearlier := ih fun earlier hlt => hgoes earlier (Nat.lt_succ_of_lt hlt)
      rw [after, hearlier, next_onto (hgoes count (Nat.lt_succ_self count))]
      rfl

theorem after_of_next_eq {count later : Nat} (hnext : (moment.after count).next = moment.after count)
    (hle : count ≤ later) : moment.after later = moment.after count := by
  obtain ⟨extra, rfl⟩ := Nat.exists_eq_add_of_le hle
  induction extra with
  | zero => rfl
  | succ extra ih => rw [← Nat.add_assoc, after, ih (Nat.le_add_right count extra), hnext]

/-- What is asked for at one moment is answered at a later one: the first at which nothing is left to be done on
top of what waited before. -/
structure Returns (moment : Moment) (count later : Nat) (outcome : Outcome) : Prop where
  lt : count < later
  task : (moment.after later).task = .answer outcome
  stack : (moment.after later).stack = (moment.after count).stack
  above : ∀ between, count < between → between < later →
    (moment.after count).stack.length < (moment.after between).stack.length

variable {count later later' : Nat} {outcome outcome' : Outcome}

theorem Returns.not_lt (hfirst : moment.Returns count later outcome)
    (hsecond : moment.Returns count later' outcome') : ¬later < later' := by
  intro hlt
  have habove := hsecond.above later hfirst.lt hlt
  rw [hfirst.stack] at habove
  exact Nat.lt_irrefl _ habove

/-- Nothing is answered twice. -/
theorem Returns.unique (hfirst : moment.Returns count later outcome)
    (hsecond : moment.Returns count later' outcome') : later = later' ∧ outcome = outcome' := by
  obtain rfl : later = later' :=
    Nat.le_antisymm (Nat.not_lt.1 (hsecond.not_lt hfirst)) (Nat.not_lt.1 (hfirst.not_lt hsecond))
  have htask := hfirst.task.symm.trans hsecond.task
  exact ⟨rfl, Task.answer.inj htask⟩

theorem returns_of_next {session : Session}
    (hnext : (moment.after count).next = answer session (moment.after count).stack outcome) :
    moment.Returns count (count + 1) outcome where
  lt := Nat.lt_succ_self count
  task := by rw [after, hnext]; rfl
  stack := by rw [after, hnext]; rfl
  above between hlt hbetween := absurd hbetween (Nat.not_lt.2 hlt)

/-- What a transport's own verdict makes of a send. -/
def carried : Except Bytes Bool → Outcome
  | .ok _ => .ok (.flag true)
  | .error text => .error (.raised text)

theorem takeVerdict_carrying (session : Session) (verdict : Except Bytes Bool) (stack : List Frame) :
    takeVerdict session verdict (.carrying :: stack) = answer session stack (carried verdict) := by
  cases verdict <;> rfl

section Carrying

variable {inner : Moment}
  (hcarrying : (moment.after count).next = inner.onto (.carrying :: (moment.after count).stack))

include hcarrying

theorem after_carrying {inside : Nat} (hgoes : ∀ earlier < inside, ¬(inner.after earlier).Rests) :
    moment.after (count + 1 + inside) = (inner.after inside).onto (.carrying :: (moment.after count).stack) := by
  rw [after_add, after, hcarrying, after_onto hgoes]

theorem lt_length_carrying {inside : Nat} (hgoes : ∀ earlier < inside, ¬(inner.after earlier).Rests) :
    (moment.after count).stack.length < (moment.after (count + 1 + inside)).stack.length := by
  rw [after_carrying hcarrying hgoes, onto, List.length_append, List.length_cons]
  omega

/-- A send returns once its transport has come to its end, with what this makes of it. -/
theorem returns_of_ends {inside : Nat} {final : Session} {verdict : Except Bytes Bool}
    (hgoes : ∀ earlier < inside, ¬(inner.after earlier).Rests)
    (hend : inner.after inside = ⟨final, .run (.finish verdict), []⟩) :
    moment.Returns count (count + 1 + inside + 1) (carried verdict) ∧
      (moment.after (count + 1 + inside + 1)).session = final := by
  have hanswer : moment.after (count + 1 + inside + 1) =
      answer final (moment.after count).stack (carried verdict) := by
    rw [after, after_carrying hcarrying hgoes, hend]
    exact takeVerdict_carrying final verdict _
  refine ⟨⟨by omega, by rw [hanswer]; rfl, by rw [hanswer]; rfl, fun between hlt hbetween => ?_⟩,
    by rw [hanswer]; rfl⟩
  obtain ⟨earlier, rfl⟩ : ∃ earlier, between = count + 1 + earlier := ⟨between - (count + 1), by omega⟩
  exact lt_length_carrying hcarrying fun other hother => hgoes other (by omega)

/-- A send that returns was handed to a transport that has come to its end. -/
theorem ends_of_returns (hreturns : moment.Returns count later outcome) :
    ∃ verdict, inner.Leads ⟨(moment.after later).session, .run (.finish verdict), []⟩ ∧
      outcome = carried verdict := by
  classical
  -- While the transport goes on, more is waiting than when the send returns.
  have hlater {inside : Nat} (hgoes : ∀ earlier < inside, ¬(inner.after earlier).Rests) :
      later ≠ count + 1 + inside := by
    rintro rfl
    have hlonger := lt_length_carrying hcarrying hgoes
    rw [hreturns.stack] at hlonger
    exact Nat.lt_irrefl _ hlonger
  have hlt := hreturns.lt
  have hends : ∃ inside, (inner.after inside).Rests := by
    by_contra hgoes
    exact hlater (fun earlier _ hrests => hgoes ⟨earlier, hrests⟩)
      (show later = count + 1 + (later - (count + 1)) by omega)
  have hgoes : ∀ earlier < Nat.find hends, ¬(inner.after earlier).Rests :=
    fun earlier hlt => Nat.find_min hends hlt
  obtain ⟨hstack, ⟨verdict, htask⟩ | ⟨answered, htask⟩⟩ := Nat.find_spec hends
  · have hend : inner.after (Nat.find hends) =
        ⟨(inner.after (Nat.find hends)).session, .run (.finish verdict), []⟩ := by
      rw [← htask, ← hstack]
    obtain ⟨hcarried, hfinal⟩ := returns_of_ends hcarrying hgoes hend
    obtain ⟨rfl, houtcome⟩ := hreturns.unique hcarried
    exact ⟨verdict, ⟨Nat.find hends, by rw [hfinal]; exact hend⟩, houtcome⟩
  · -- Nobody takes an answer where a verdict is waited for, and nothing happens any more.
    have hanswered : moment.after (count + 1 + Nat.find hends) =
        answer (inner.after (Nat.find hends)).session (.carrying :: (moment.after count).stack) answered := by
      rw [after_carrying hcarrying hgoes, onto, hstack, htask]
      rfl
    have hstuck : (moment.after (count + 1 + Nat.find hends)).next =
        moment.after (count + 1 + Nat.find hends) := by
      rw [hanswered]
      rfl
    have hle : count + 1 + Nat.find hends ≤ later := by
      by_contra hbefore
      obtain ⟨earlier, hearlier⟩ : ∃ earlier, later = count + 1 + earlier := ⟨later - (count + 1), by omega⟩
      exact hlater (fun other hother => hgoes other (by omega)) hearlier
    have hlonger := lt_length_carrying hcarrying hgoes
    rw [← after_of_next_eq hstuck hle, hreturns.stack] at hlonger
    exact absurd hlonger (Nat.lt_irrefl _)

/-- **Transports.** A send returns when its transport does, and leaves what the transport leaves. -/
theorem returns_iff_of_carrying {final : Session} :
    (∃ later, moment.Returns count later outcome ∧ (moment.after later).session = final) ↔
      ∃ verdict, inner.Leads ⟨final, .run (.finish verdict), []⟩ ∧ outcome = carried verdict := by
  classical
  constructor
  · rintro ⟨later, hreturns, rfl⟩
    exact ends_of_returns hcarrying hreturns
  · rintro ⟨verdict, ⟨inside, hinside⟩, rfl⟩
    -- The first moment at rest counts, and from there on nothing happens any more.
    have hrests : (inner.after inside).Rests := by
      rw [hinside]
      exact ⟨rfl, .inl ⟨verdict, rfl⟩⟩
    have hends : ∃ inside, (inner.after inside).Rests := ⟨inside, hrests⟩
    have hend : inner.after (Nat.find hends) = ⟨final, .run (.finish verdict), []⟩ := by
      rw [← hinside, after_of_next_eq (next_of_rests (Nat.find_spec hends)) (Nat.find_min' hends hrests)]
    exact ⟨_, returns_of_ends hcarrying (fun earlier hlt => Nat.find_min hends hlt) hend⟩

end Carrying

end Moment

end GroupChat
