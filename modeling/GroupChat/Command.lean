import GroupChat.Log
import GroupChat.Standing

/-!
What can be asked of a group session, and the behaviour of those who take part in it. A subscriber
answers each notice with a program, which asks for commands one after the other, sees how each of them
ends, and finally accepts or declines the notice or fails. A transport that is not the server's own
treats each action in the same way.
-/

namespace GroupChat

inductive Value where
  | nothing
  | flag (value : Bool)
  | count (value : Nat)
  | member (id : MemberId)
  | target (id : Option MemberId)
  deriving DecidableEq, Repr

abbrev Outcome := Except Failure Value

mutual

inductive Command : Type where
  | openChannel (id : MemberId)
  | send (id : MemberId) (action : Except ControlError Action)
  | notify (id : MemberId) (notice : Except ControlError Notice)
  | subscribe (id name : MemberId)
      (respond : (earlier : Nat) → Notice → Standing → Program)
  | cancel (name : MemberId)
  | setLevel (level : Log.Level)
  | install (id : MemberId) (transport : Transport)
  | drop (id : MemberId)
  | receive (index : Nat)
  | receiveAll
  | deliver (id : Option MemberId)
  | deliverAll
  | run
  | target
  | queued (id : MemberId)

inductive Program : Type where
  | finish (verdict : Except Bytes Bool)
  | perform (command : Command) (next : Except Failure Value → Program)

inductive Transport : Type where
  | absent
  /-- Hands every action to the server. -/
  | uplink
  /-- Carries actions elsewhere, and reports each of them under its label, if it has one. -/
  | outlet (label : Option Bytes) (carry : Action → Program)

end

/-- How a subscriber answers a notice, given how often its name was called before and what the channel's
owner sees of the membership. -/
abbrev Respond := (earlier : Nat) → Notice → Standing → Program

structure Subscriber where
  name : MemberId
  respond : Respond

/-- What a command asks for, without its details. -/
inductive Verb where
  | openChannel
  | send
  | notify
  | subscribe
  | cancel
  | setLevel
  | install
  | drop
  | receive
  | receiveAll
  | deliver
  | deliverAll
  | run
  | target
  | queued
  deriving DecidableEq, Repr

def Command.verb : Command → Verb
  | .openChannel _ => .openChannel
  | .send _ _ => .send
  | .notify _ _ => .notify
  | .subscribe _ _ _ => .subscribe
  | .cancel _ => .cancel
  | .setLevel _ => .setLevel
  | .install _ _ => .install
  | .drop _ => .drop
  | .receive _ => .receive
  | .receiveAll => .receiveAll
  | .deliver _ => .deliver
  | .deliverAll => .deliverAll
  | .run => .run
  | .target => .target
  | .queued _ => .queued

/-- What can be observed of a session, in the order in which it happens. -/
inductive Event where
  | log (line : Log.Line)
  | sent (label : Bytes) (action : Action)
  | notice (subscriber : MemberId) (notice : Notice) (standing : Standing)
  | did (verb : Verb) (value : Value)
  deriving DecidableEq

/-- Asks for all commands in turn, and fails as soon as one of them fails. -/
def Program.script (commands : List Command) (verdict : Except Bytes Bool) : Program :=
  commands.foldr
    (fun command rest => .perform command fun outcome =>
      match outcome with
      | .ok _ => rest
      | .error failure => .finish (.error failure.message))
    (.finish verdict)

/-- Runs a script on the first calls, and comes to the same verdict on every call. -/
def Respond.scripted (commands : List Command) (limit : Nat) (verdict : Except Bytes Bool) : Respond :=
  fun earlier _ _ =>
    Program.script (if earlier < limit then commands else []) verdict

def Transport.recording (label : Bytes) : Transport := .outlet (some label) fun _ => .finish (.ok true)

def Transport.failing (text : Bytes) : Transport := .outlet none fun _ => .finish (.error text)

end GroupChat
