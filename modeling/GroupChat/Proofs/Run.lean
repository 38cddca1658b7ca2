import GroupChat.Proofs.Settlement

/-!
# Runs of a server

A run is a list of moves: members open channels, send, subscribe and cancel, and somebody decides
which packet is processed and which queue is served next. What a subscriber does while it is called
is a move like any other, made after the notice was delivered. `record` keeps what the run has
processed and delivered, which the state forgets.
-/

namespace GroupChat

/-- Whether a channel hands an action to the server. -/
def Channel.uplinks (channel : Channel) (action : Action) : Bool :=
  match channel.transport with
  | .uplink => (channel.refusal? action).isNone
  | _ => false

namespace Server

inductive Move where
  | openChannel (id : MemberId)
  | send (id : MemberId) (action : Action)
  | subscribe (id : MemberId) (subscriber : Subscriber)
  | cancel (id : MemberId) (key : Nat)
  | receive (index : Nat)
  | deliver (id : MemberId)

/-- What came of a move: a packet was accepted, or processed under some membership, or a notice was
delivered, with what its receiver saw of the membership then. -/
inductive Occurrence where
  | submitted (packet : Packet)
  | processed (members : MemberSet) (packet : Packet)
  | delivered (id : MemberId) (notice : Notice) (standing : Standing)

def step (server : Server) : Move → Server × Option Occurrence
  | .openChannel id => (server.openMailbox id, none)
  | .send id action =>
      if (server.mailbox id).channel.uplinks action then
        ((server.openMailbox id).submit ⟨id, action⟩, some (.submitted ⟨id, action⟩))
      else (server.openMailbox id, none)
  | .subscribe id subscriber =>
      ((server.openMailbox id).modifyChannel id fun channel =>
        { channel with subscriptions := channel.subscriptions.add subscriber }, none)
  | .cancel id key =>
      (server.modifyChannel id fun channel =>
        { channel with subscriptions := channel.subscriptions.cancel key }, none)
  | .receive index =>
      match server.receive index with
      | .error _ => (server, none)
      | .ok (next, _) => (next, server.incoming[index]?.map (.processed server.members))
  | .deliver id =>
      match server.takeNotice id with
      | .error _ => (server, none)
      | .ok (notice, taken) =>
          match taken.notify id (taken.mailbox id).channel notice with
          | .ok (next, channel, _) => (next, some (.delivered id notice channel.standing))
          | .error _ => (taken, some (.delivered id notice (taken.standing id)))

def run (server : Server) : List Move → Server
  | [] => server
  | move :: rest => (server.step move).1.run rest

def record (server : Server) : List Move → List Occurrence
  | [] => []
  | move :: rest => (server.step move).2.toList ++ (server.step move).1.record rest

/-- The states that a run goes through, its first and its last one included. -/
def states (server : Server) : List Move → List Server
  | [] => [server]
  | move :: rest => server :: (server.step move).1.states rest

theorem run_append (server : Server) (first second : List Move) :
    server.run (first ++ second) = (server.run first).run second := by
  induction first generalizing server with
  | nil => rfl
  | cons move rest ih => exact ih (server.step move).1

theorem states_eq_cons (server : Server) (moves : List Move) :
    ∃ later, server.states moves = server :: later := by
  cases moves with
  | nil => exact ⟨[], rfl⟩
  | cons move rest => exact ⟨(server.step move).1.states rest, rfl⟩

namespace Occurrence

/-- The notice that a member was given, and what it saw of the membership then. -/
def delivery? (id : MemberId) : Occurrence → Option (Notice × Standing)
  | .delivered other notice standing => if other = id then some (notice, standing) else none
  | _ => none

/-- The packet that was processed, and the membership before. -/
def settlement? : Occurrence → Option (MemberSet × Packet)
  | .processed members packet => some (members, packet)
  | _ => none

end Occurrence

end Server

end GroupChat
