import GroupChat.Channel
import GroupChat.Directory

/-!
A server that orders the packets of all members and resolves their membership changes. Whatever it
decides it puts into mailboxes, one for each member, as notices; delivering them is a separate step.
-/

namespace GroupChat

structure Packet where
  sender : MemberId
  action : Action
  deriving DecidableEq

structure Mailbox where
  channel : Channel
  queue : List Notice := []

structure Server where
  members : MemberSet := OrderedSet.empty
  incoming : List Packet := []
  mailboxes : Directory Mailbox := Directory.empty

/-- What comes of a packet: the membership after it, who is told what, and the messages about it. -/
structure Ruling where
  members : MemberSet
  entries : List (MemberId × Notice) := []
  lines : List Log.Line := []

namespace Server

def component : Bytes := Bytes.ofString "server"

def line (level : Log.Level) (text : Bytes) : Log.Line := ⟨level, component, text⟩

def mailbox? (server : Server) (id : MemberId) : Option Mailbox := server.mailboxes.get? id

def channel? (server : Server) (id : MemberId) : Option Channel :=
  (server.mailbox? id).map Mailbox.channel

def queue (server : Server) (id : MemberId) : List Notice :=
  ((server.mailbox? id).map Mailbox.queue).getD []

/-- Makes sure that a member has a mailbox. -/
def openMailbox (server : Server) (id : MemberId) : Server :=
  match server.mailbox? id with
  | some _ => server
  | none =>
      { server with
        mailboxes := server.mailboxes.set id { channel := { owner := id, transport := .uplink } } }

def modifyMailbox (server : Server) (id : MemberId) (change : Mailbox → Mailbox) : Server :=
  { server with mailboxes := server.mailboxes.modify id change }

def modifyChannel (server : Server) (id : MemberId) (change : Channel → Channel) : Server :=
  server.modifyMailbox id fun mailbox => { mailbox with channel := change mailbox.channel }

/-- A channel receives a notice. The result has the channel after it and the message about it. -/
def notify (server : Server) (id : MemberId) (channel : Channel) (notice : Notice) :
    Except Failure (Server × Channel × Log.Line) := do
  let (next, line) ← channel.absorb notice
  return (server.modifyChannel id fun _ => next, next, line)

def submit (server : Server) (packet : Packet) : Server :=
  { server with incoming := server.incoming ++ [packet] }

def post (server : Server) (entry : MemberId × Notice) : Server :=
  (server.openMailbox entry.1).modifyMailbox entry.1 fun mailbox =>
    { mailbox with queue := mailbox.queue ++ [entry.2] }

def postAll (server : Server) (entries : List (MemberId × Notice)) : Server :=
  entries.foldl post server

/-- Every current member gets a payload, whoever it was meant for. -/
def broadcast (members : MemberSet) (sender : MemberId) (payload : Bytes) (recipients : MemberSet) :
    Ruling :=
  let gone : MemberSet := recipients.sdiff members
  let lines :=
    if gone.isEmpty then []
    else [line .info (Bytes.ofString "Some recipients already left: " ++ gone.print ++
      Bytes.ofString "; sending to " ++ members.print)]
  { members, entries := members.items.map fun id => (id, .raw payload sender), lines }

/-- The members that a control wants to enter and to leave. -/
def requested (sender : MemberId) : Control → MemberSet × MemberSet
  | .selfEnter => (OrderedSet.singleton sender, OrderedSet.empty)
  | .selfLeave => (OrderedSet.empty, OrderedSet.singleton sender)
  | .delta change => (change.enter, change.leave)

/-- What those who stay are told. -/
def noticesForRemaining (remaining enter leave : MemberSet) :
    Except ControlError (List (MemberId × Notice)) :=
  if remaining.isEmpty then .ok []
  else do
    let change ← Control.ofSets enter leave
    return remaining.items.map fun id => (id, .control change)

/-- What one who enters is told: its own entry, and then who else is there. -/
def noticesForEntrant (members : MemberSet) (id : MemberId) :
    Except ControlError (List (MemberId × Notice)) :=
  let others := members.sdiff (OrderedSet.singleton id)
  if others.isEmpty then .ok [(id, .control .selfEnter)]
  else do
    let change ← Control.ofSets others OrderedSet.empty
    return [(id, .control .selfEnter), (id, .control change)]

/-- Everything that a change of the membership has to say, to those who stay, enter and leave. -/
def changeNotices (remaining enter leave : MemberSet) :
    Except ControlError (List (MemberId × Notice)) := do
  let forRemaining ← noticesForRemaining remaining enter leave
  let forEntrants ← enter.items.mapM (noticesForEntrant (remaining.union enter))
  let forLeavers := leave.items.map fun id => (id, Notice.control .selfLeave)
  return forRemaining ++ forEntrants.flatten ++ forLeavers

/-- As much of a membership change as still makes sense. -/
def changeMembers (members : MemberSet) (sender : MemberId) (change : Control) :
    Except Failure Ruling :=
  let (wantEnter, wantLeave) := requested sender change
  let doneEnter : MemberSet := wantEnter.inter members
  let doneLeave : MemberSet := wantLeave.sdiff members
  let enter : MemberSet := wantEnter.sdiff members
  let leave : MemberSet := wantLeave.inter members
  let lines :=
    (if doneEnter.isEmpty then []
      else [line .info (Bytes.ofString "Already entered: " ++ doneEnter.print)]) ++
    (if doneLeave.isEmpty then []
      else [line .info (Bytes.ofString "Already left: " ++ doneLeave.print)])
  if enter.isEmpty && leave.isEmpty then .ok { members, lines }
  else
    let remaining : MemberSet := members.sdiff leave
    let next : MemberSet := remaining.union enter
    match changeNotices remaining enter leave with
    | .error error => .error (.control error)
    | .ok entries =>
        .ok ⟨next, entries,
          lines ++ [line .debug (Bytes.ofString "Membership is now " ++ next.print)]⟩

/-- Decides about a packet. Of those who are not members only a request to enter has any effect. -/
def rule (members : MemberSet) (packet : Packet) : Except Failure Ruling :=
  if !members.contains packet.sender && packet.action != .control .selfEnter then
    .ok { members
          lines := [line .info (Bytes.ofString "Ignoring packet from non-member " ++ packet.sender)] }
  else match packet.action with
    | .control change => changeMembers members packet.sender change
    | .raw payload recipients => .ok (broadcast members packet.sender payload recipients)

/-- Processes one packet: everything that is decided about it is posted at once. -/
def settle (server : Server) (packet : Packet) : Except Failure (Server × List Log.Line) :=
  match rule server.members packet with
  | .error failure => .error failure
  | .ok ruling => .ok ({ server with members := ruling.members }.postAll ruling.entries, ruling.lines)

/-- Processes the packet at a position. Packets of one sender have to be processed in order. -/
def receive (server : Server) (index : Nat) : Except Failure (Server × List Log.Line) :=
  match server.incoming[index]? with
  | none => .error (.request .nothingToReceive)
  | some packet =>
      if (server.incoming.take index).any (·.sender == packet.sender) then
        .error (.request (.outOfOrder packet.sender))
      else { server with incoming := server.incoming.eraseIdx index }.settle packet

def receiveUpTo (server : Server) : (limit : Nat) → Except Failure (Nat × Server × List Log.Line)
  | 0 => .ok (0, server, [])
  | limit + 1 =>
      if server.incoming.isEmpty then .ok (0, server, [])
      else do
        let (next, lines) ← server.receive 0
        let (count, final, more) ← next.receiveUpTo limit
        return (count + 1, final, lines ++ more)

/-- Processes packets from the front until none are left. -/
def receiveAll (server : Server) : Except Failure (Nat × Server × List Log.Line) :=
  server.receiveUpTo server.incoming.length

def takeNotice (server : Server) (id : MemberId) : Except RequestError (Notice × Server) :=
  match server.mailbox? id with
  | none => .error (.unknownMember id)
  | some mailbox =>
      match mailbox.queue with
      | [] => .error (.noNoticesFor id)
      | notice :: rest =>
          .ok (notice, server.modifyMailbox id fun mailbox => { mailbox with queue := rest })

/-- The member with the most notices waiting, the least one of several. -/
def target? (server : Server) : Option MemberId :=
  server.mailboxes.largest? fun mailbox => mailbox.queue.length

end Server

end GroupChat
