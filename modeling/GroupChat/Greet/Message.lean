import GroupChat.Bytes.Base64
import GroupChat.Greet.Kind
import GroupChat.Member

/-!
Greet messages as values: what a message says, and what it was received in.
-/

namespace GroupChat.Greet

/-- What a message says. Keys and nonces are aligned by position with the members. -/
structure Message where
  source : MemberId := []
  /-- Empty for a message to everyone. -/
  dest : MemberId := []
  kind : Option Kind := none
  members : List MemberId := []
  intKeys : List Bytes := []
  nonces : List Bytes := []
  pubKeys : List Bytes := []
  sessionSignature : Option Bytes := none
  /-- Only disclosed when a member leaves. -/
  signingKey : Option Bytes := none
  deriving DecidableEq, Repr

namespace Message

def isBroadcast (message : Message) : Bool := message.dest.isEmpty

def KeysFitMembers (message : Message) : Prop :=
  message.intKeys.length ≤ message.members.length ∧
    message.nonces.length ≤ message.members.length ∧
    message.pubKeys.length ≤ message.members.length

instance (message : Message) : Decidable message.KeysFitMembers :=
  inferInstanceAs (Decidable (_ ∧ _ ∧ _))

/-- The key that the message lists for its own source, which is looked for at its first mention. -/
def listedKey? (message : Message) : Option Bytes := do
  let index ← message.members.findIdx? (· == message.source)
  message.pubKeys[index]?

end Message

/-- A message together with what is read off it and what it was received in. -/
structure Envelope where
  message : Message := {}
  agreement : Option Agreement := none
  flow : Option Flow := none
  /-- The key parts of the message in base64, for printing. -/
  printedKeys : List Bytes := []
  version : Option Nat := none
  signature : Bytes := []
  verified : Bool := false
  /-- The encoded content that the signature covers. -/
  raw : Bytes := []
  payload : Bytes := []
  deriving DecidableEq, Repr

end GroupChat.Greet
