import GroupChat.Command
import GroupChat.Subscriptions

/-!
Channels: the view that one member has of a group. Membership changes only through control notices;
what is sent goes to the transport and comes back, if at all, as a notice later.
-/

namespace GroupChat

structure Channel where
  owner : MemberId
  standing : Standing := none
  transport : Transport := .absent
  subscriptions : Subscriptions Subscriber := Subscriptions.empty

namespace Channel

def component : Bytes := Bytes.ofString "channel"

def line (channel : Channel) (level : Log.Level) (text : Bytes) : Log.Line :=
  ⟨level, component, channel.owner ++ Bytes.ofString ": " ++ text⟩

def isJoined (channel : Channel) : Bool := channel.standing.isSome

/-- Why an action is not handed to the transport, if it is not. -/
def refusal? (channel : Channel) (action : Action) : Option Log.Line :=
  match channel.transport with
  | .absent => some (channel.line .warn (Bytes.ofString "no transport for outgoing action"))
  | _ =>
      if action.accepted channel.owner channel.standing then none
      else match action with
        | .control change => some (channel.line .warn (Bytes.ofString "rejected " ++ change.print))
        | .raw _ _ => some (channel.line .warn (Bytes.ofString "rejected raw send while not joined"))

/-- The channel after a notice, and the message about it. -/
def absorb (channel : Channel) : Notice → Except Failure (Channel × Log.Line)
  | .control change => do
      let standing ← change.apply channel.owner channel.standing
      let members := standing.getD OrderedSet.empty
      return ({ channel with standing },
        channel.line .info (change.print ++ Bytes.ofString " -> " ++ members.print))
  | .raw payload sender =>
      if channel.isJoined then
        .ok (channel, channel.line .debug
          (Bytes.ofString "payload of " ++ Bytes.ofNat payload.length ++
            Bytes.ofString " bytes from " ++ sender))
      else
        .ok (channel, channel.line .warn
          (Bytes.ofString "dropped payload from " ++ sender ++ Bytes.ofString " (not joined)"))

/-- Whether subscribers get to see a notice, once the channel has absorbed it. -/
def publishes (channel : Channel) : Notice → Bool
  | .control _ => true
  | .raw _ _ => channel.isJoined

end Channel

end GroupChat
