import GroupChat.Greet.Field
import GroupChat.Log
import GroupChat.Signature.Scheme

/-!
Writing greet messages: the content as records in a fixed order, and in front of it a record with the
signature over a label and that content.
-/

namespace GroupChat.Greet

inductive EncodeError where
  | missingKind
  | moreKeysThanMembers
  | write (error : WriteError)
  deriving DecidableEq, Repr

def EncodeError.message : EncodeError → Bytes
  | .missingKind => Bytes.ofString "Greet message without a greet type"
  | .moreKeysThanMembers => Bytes.ofString "More keys than members"
  | .write error => error.message

def logComponent : Bytes := Bytes.ofString "codec"

/-- What is signed starts with this label. -/
def signatureLabel : Bytes := Bytes.ofString "greetmsgsig"

def Field.record (field : Field) (value : Bytes) : Record := ⟨field.tag, value⟩

def Field.records (field : Field) (values : List Bytes) : List Record := values.map field.record

namespace Message

def records (message : Message) (kind : Kind) : List Record :=
  [Field.version.record (Integer.bigEndian 1 protocolVersion),
    Field.category.record (Integer.bigEndian 1 Category.greet.code),
    Field.kind.record (Integer.bigEndian 2 kind.bits.toNat),
    Field.source.record message.source,
    Field.dest.record message.dest] ++
  Field.member.records message.members ++
  Field.intKey.records message.intKeys ++
  Field.nonce.records message.nonces ++
  Field.pubKey.records message.pubKeys ++
  Field.sessionSignature.records message.sessionSignature.toList ++
  Field.signingKey.records message.signingKey.toList

def encodeContent (message : Message) : Except EncodeError Bytes :=
  match message.kind with
  | none => .error .missingKind
  | some kind =>
      if message.KeysFitMembers then
        (Record.encodeAll (message.records kind)).mapError .write
      else .error .moreKeysThanMembers

/-- The message about the data that was encoded. -/
def encodedLine (message : Message) (data : Bytes) : Log.Line :=
  let text := Bytes.ofString "Encoded " ++ (message.kind.map Kind.name).getD [] ++
    Bytes.ofString " from " ++ message.source ++ Bytes.ofString " (" ++ Bytes.ofNat data.length ++
    Bytes.ofString " bytes)"
  ⟨.debug, logComponent, text⟩

def encode (scheme : SignatureScheme) (message : Message) (key : SigningKey) :
    Except EncodeError (Bytes × List Log.Line) := do
  let content ← message.encodeContent
  let signature := scheme.sign key.seed (signatureLabel ++ content)
  let front ← (Field.signature.record signature).encode.mapError .write
  let data := front ++ content
  return (data, [message.encodedLine data])

end Message

end GroupChat.Greet
