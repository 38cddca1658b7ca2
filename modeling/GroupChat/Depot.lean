import GroupChat.Server

/-!
A server that keeps channels and queues in two tables, where a server of mailboxes has them in one. What is
looked up in one table need not be there because it is in the other one: a queue that is missing where it is
taken for granted is a fault of its own, which is told from the failures that a caller is told of.
-/

namespace GroupChat

inductive DepotError where
  | failed (failure : Failure)
  | missingQueue (id : MemberId)
  deriving DecidableEq

structure Depot where
  members : MemberSet := OrderedSet.empty
  incoming : List Packet := []
  channels : Directory Channel := Directory.empty
  queues : Directory (List Notice) := Directory.empty

namespace Depot

/-- Works on the tables. An error leaves them as they are where it comes up. -/
abbrev Work := ExceptT DepotError (StateM Depot)

def queue (depot : Depot) (id : MemberId) : List Notice := (depot.queues.get? id).getD []

/-- Looks up a member's channel. If there is none, it is made, and a queue with it unless there is one. -/
def channel (id : MemberId) : Work Channel := do
  let depot ← get
  match depot.channels.get? id with
  | some channel => return channel
  | none =>
      let channel : Channel := { owner := id, transport := .uplink }
      set { depot with
        queues := depot.queues.set id (depot.queue id)
        channels := depot.channels.set id channel }
      return channel

/-- The queue of a member, which has to be there. -/
def queueAt (id : MemberId) : Work (List Notice) := do
  match (← get).queues.get? id with
  | some queue => return queue
  | none => throw (.missingQueue id)

def setQueue (id : MemberId) (queue : List Notice) : Work Unit :=
  modify fun depot => { depot with queues := depot.queues.set id queue }

def enqueue (entry : MemberId × Notice) : Work Unit := do
  let _ ← channel entry.1
  let queue ← queueAt entry.1
  setQueue entry.1 (queue ++ [entry.2])

/-- A member does something to its channel, if it has one: it subscribes, cancels or takes another
transport. -/
def alter (id : MemberId) (change : Channel → Channel) : Work Unit :=
  modify fun depot => { depot with channels := depot.channels.modify id change }

/-- A member's channel is asked to send an action. The answer says whether the server got it. -/
def send (id : MemberId) (action : Action) : Work Bool := do
  let channel ← channel id
  match channel.refusal? action with
  | some _ => return false
  | none =>
      match channel.transport with
      | .uplink =>
          modify fun depot => { depot with incoming := depot.incoming ++ [⟨id, action⟩] }
          return true
      | _ => return false

/-- Processes the packet at a position. Packets of one sender have to be processed in order. -/
def receive (index : Nat) : Work (List Log.Line) := do
  let depot ← get
  match depot.incoming[index]? with
  | none => throw (.failed (.request .nothingToReceive))
  | some packet =>
      if (depot.incoming.take index).any (·.sender == packet.sender) then
        throw (.failed (.request (.outOfOrder packet.sender)))
      else
        set { depot with incoming := depot.incoming.eraseIdx index }
        match Server.rule depot.members packet with
        | .error failure => throw (.failed failure)
        | .ok ruling =>
            modify fun depot => { depot with members := ruling.members }
            ruling.entries.forM enqueue
            return ruling.lines

/-- Takes the first notice out of a member's queue. -/
def take (id : MemberId) : Work Notice := do
  match (← get).channels.get? id with
  | none => throw (.failed (.request (.unknownMember id)))
  | some _ =>
      match ← queueAt id with
      | [] => throw (.failed (.request (.noNoticesFor id)))
      | notice :: rest =>
          setQueue id rest
          return notice

/-- A channel receives a notice. What its subscribers do then is asked for by them. -/
def hear (id : MemberId) (notice : Notice) : Work Unit := do
  let depot ← get
  match depot.channels.get? id with
  | none => return ()
  | some channel =>
      match channel.absorb notice with
      | .error failure => throw (.failed failure)
      | .ok (next, _) => set { depot with channels := depot.channels.set id next }

/-- The member with the longest queue, the least one of several. -/
def target? (depot : Depot) : Option MemberId := depot.queues.largest? List.length

def deliverTo (id : MemberId) : Work Unit := do
  let notice ← take id
  hear id notice

/-- Delivers the next notice, to a given member or to the one with the longest queue. -/
def deliver : Option MemberId → Work Unit
  | some id => deliverTo id
  | none => do
      match (← get).target? with
      | none => throw (.failed (.request .noNotices))
      | some id => deliverTo id

/-- What can be asked for, by users of the server and by subscribers while they are called. Before they are,
a notice is taken and heard. -/
inductive Call where
  | channel (id : MemberId)
  | alter (id : MemberId) (change : Channel → Channel)
  | send (id : MemberId) (action : Action)
  | receive (index : Nat)
  | take (id : MemberId)
  | hear (id : MemberId) (notice : Notice)
  | deliver (id : Option MemberId)

def Call.perform : Call → Work Unit
  | .channel id => do let _ ← Depot.channel id
  | .alter id change => Depot.alter id change
  | .send id action => do let _ ← Depot.send id action
  | .receive index => do let _ ← Depot.receive index
  | .take id => do let _ ← Depot.take id
  | .hear id notice => Depot.hear id notice
  | .deliver id => Depot.deliver id

/-- The tables after some calls, whatever each of them came to. -/
def after (depot : Depot) : List Call → Depot
  | [] => depot
  | call :: calls => (call.perform.run depot).2.after calls

end Depot

end GroupChat
