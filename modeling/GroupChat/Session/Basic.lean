import GroupChat.Server

/-!
The state of a session: a server, or a channel that stands alone, together with what was observed so
far.
-/

namespace GroupChat

structure Session where
  server : Server := {}
  logger : Log.Logger := {}
  events : List Event := []
  /-- How often subscribers of each name were called. -/
  calls : Directory Nat := Directory.empty
  /-- The latest subscription of each name: the owner of its channel, and its key there. -/
  handles : Directory (MemberId × Nat) := Directory.empty
  /-- The members that were named by a command or took part in the group. -/
  known : MemberSet := OrderedSet.empty
  /-- The owners of the channels that are publishing a notice, the latest first. -/
  publishing : List MemberId := []
  /-- The subscriptions of channels that were dropped while they were publishing. -/
  held : Directory (Subscriptions Subscriber) := Directory.empty

namespace Session

def record (session : Session) (event : Event) : Session :=
  { session with events := session.events ++ [event] }

def log (session : Session) (lines : List Log.Line) : Session :=
  { session with events := session.events ++ (session.logger.delivered lines).map .log }

def channel? (session : Session) (id : MemberId) : Option Channel := session.server.channel? id

def modifyChannel (session : Session) (id : MemberId) (change : Channel → Channel) : Session :=
  { session with server := session.server.modifyChannel id change }

/-- Looks up a member's channel, which is made if there is none. -/
def openChannel (session : Session) (id : MemberId) : Session :=
  { session with server := session.server.openMailbox id, known := session.known.insert id }

/-- The subscriptions of a member's channel. Those of a dropped channel last until it has published. -/
def subscriptions? (session : Session) (id : MemberId) : Option (Subscriptions Subscriber) :=
  match session.channel? id with
  | some channel => some channel.subscriptions
  | none => session.held.get? id

def isSubscribed (session : Session) (id : MemberId) (key : Nat) : Bool :=
  ((session.subscriptions? id).map (·.isActive key)).getD false

def standing (session : Session) (id : MemberId) : Standing :=
  (session.channel? id).bind Channel.standing

def callCount (session : Session) (name : MemberId) : Nat := (session.calls.get? name).getD 0

def countCall (session : Session) (name : MemberId) : Session :=
  { session with calls := session.calls.set name (session.callCount name + 1) }

def subscribe (session : Session) (id : MemberId) (subscriber : Subscriber) : Session :=
  match session.channel? id with
  | none => session
  | some channel =>
      { session.modifyChannel id fun channel =>
          { channel with subscriptions := channel.subscriptions.add subscriber } with
        handles := session.handles.set subscriber.name (id, channel.subscriptions.nextKey) }

def unsubscribe (session : Session) (id : MemberId) (key : Nat) : Session :=
  match session.channel? id with
  | some _ =>
      session.modifyChannel id fun channel =>
        { channel with subscriptions := channel.subscriptions.cancel key }
  | none => { session with held := session.held.modify id (·.cancel key) }

/-- Whether the latest subscription of a name was still active, and the session without it. -/
def cancel (session : Session) (name : MemberId) : Bool × Session :=
  match session.handles.get? name with
  | none => (false, session)
  | some (id, key) => (session.isSubscribed id key, session.unsubscribe id key)

def beginPublishing (session : Session) (id : MemberId) : Session :=
  { session with publishing := id :: session.publishing }

/-- The subscriptions of a dropped channel are given up with the last notice that it was publishing. -/
def endPublishing (session : Session) (id : MemberId) : Session :=
  { session with
    publishing := session.publishing.tail
    held := if session.publishing.tail.contains id then session.held else session.held.erase id }

/-- Gives up a member's channel. While it is publishing, its subscriptions are held. -/
def drop (session : Session) (id : MemberId) : Session :=
  { session with
    server := { session.server with mailboxes := session.server.mailboxes.erase id }
    held :=
      match session.channel? id with
      | some channel =>
          if session.publishing.contains id then session.held.set id channel.subscriptions
          else session.held.erase id
      | none => session.held }

def onServer (logger : Log.Logger) : Session := { logger }

/-- A session on one channel without a transport. -/
def onChannel (logger : Log.Logger) (owner : MemberId) : Session :=
  { logger
    server := { mailboxes := Directory.empty.set owner { channel := { owner } } } }

/-- What can be seen of a member's channel: its view of the membership, and how many notices wait. -/
structure ChannelReport where
  id : MemberId
  standing : Standing
  queued : Nat
  deriving DecidableEq

def channelReports (session : Session) : List ChannelReport :=
  session.known.items.map fun id =>
    { id
      standing := session.standing id
      queued := (session.server.queue id).length }

end Session

end GroupChat
