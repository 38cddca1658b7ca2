import GroupChat.Greet.Category
import GroupChat.Greet.Message
import GroupChat.Record.Basic

/-!
The fields of a greet message: each is a record with a tag of its own, and may come once or several
times.
-/

namespace GroupChat.Greet

inductive Field where
  | padding
  | version
  | category
  | signature
  | payload
  | initialVector
  | sessionHint
  | source
  | dest
  | member
  | intKey
  | nonce
  | pubKey
  | sessionSignature
  | signingKey
  | kind
  deriving DecidableEq, Repr

namespace Field

def tag : Field → UInt16
  | .padding => 0x0000
  | .version => 0x0001
  | .category => 0x0002
  | .signature => 0x0003
  | .payload => 0x0010
  | .initialVector => 0x0011
  | .sessionHint => 0x0012
  | .source => 0x0100
  | .dest => 0x0101
  | .member => 0x0102
  | .intKey => 0x0103
  | .nonce => 0x0104
  | .pubKey => 0x0105
  | .sessionSignature => 0x0106
  | .signingKey => 0x0107
  | .kind => 0x01ff

def all : List Field :=
  [.padding, .version, .category, .signature, .payload, .initialVector, .sessionHint, .source, .dest,
    .member, .intKey, .nonce, .pubKey, .sessionSignature, .signingKey, .kind]

def ofTag? (tag : UInt16) : Option Field := all.find? (·.tag == tag)

end Field

def protocolVersion : Nat := 1

end GroupChat.Greet
