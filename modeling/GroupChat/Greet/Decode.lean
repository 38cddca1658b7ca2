import GroupChat.Greet.Encode
import GroupChat.Record.Reader

/-!
Reading greet messages. What a record says is taken in before the next one is read, so that the first fault
in the data is the one reported; what the records say together is looked at in the end.
-/

namespace GroupChat.Greet

inductive FormatError where
  | noLeadingSignature
  | wrongWidth (tag : UInt16) (expected actual : Nat)
  | wrongVersion (version : Nat)
  | notGreet
  | unexpectedField (tag : UInt16)
  | missingVersion
  | missingKind
  | missingRoute
  | moreKeysThanMembers
  | unknownContent
  deriving DecidableEq, Repr

def FormatError.message : FormatError → Bytes
  | .noLeadingSignature => Bytes.ofString "Greet message does not start with a signature"
  | .wrongWidth tag expected actual =>
      Bytes.ofString "Record of type " ++ Bytes.ofNat tag.toNat ++ Bytes.ofString " must be " ++
        Bytes.ofNat expected ++ Bytes.ofString " bytes, got " ++ Bytes.ofNat actual
  | .wrongVersion version =>
      Bytes.ofString "Received wrong protocol version: " ++ Bytes.ofNat version
  | .notGreet => Bytes.ofString "Not a greet message"
  | .unexpectedField tag =>
      Bytes.ofString "Unexpected record type in greet message: " ++ Bytes.ofNat tag.toNat
  | .missingVersion => Bytes.ofString "Greet message without a protocol version"
  | .missingKind => Bytes.ofString "Greet message without a greet type"
  | .missingRoute => Bytes.ofString "Greet message without a source and destination"
  | .moreKeysThanMembers => Bytes.ofString "Greet message lists more keys than members"
  | .unknownContent => Bytes.ofString "Message does not carry a known message type"

inductive DecodeError where
  | read (error : ReadError)
  | format (error : FormatError)
  /-- The signature scheme refuses the key that a message is to be verified with. -/
  | key (error : KeyError)
  deriving DecidableEq, Repr

def DecodeError.message : DecodeError → Bytes
  | .read error => error.message
  | .format error => error.message
  | .key error => error.message?.getD []

def fixedWidth (width : Nat) (record : Record) : Except DecodeError Nat :=
  if record.value.length = width then record.integer.mapError .read
  else .error (.format (.wrongWidth record.tag width record.value.length))

/-- Takes in a record after the signature. A field that comes again replaces what it said before, or adds to
it where a message has a list. -/
def Envelope.read (envelope : Envelope) (record : Record) : Except DecodeError Envelope :=
  match Field.ofTag? record.tag with
  | some .padding => .ok envelope
  | some .version => do
      let version ← fixedWidth 1 record
      if version ≠ protocolVersion then throw (.format (.wrongVersion version))
      return { envelope with version := some version }
  | some .category => do
      if (← fixedWidth 1 record) ≠ Category.greet.code then throw (.format .notGreet)
      return envelope
  | some .kind => do
      let kind := Kind.ofNat (← fixedWidth 2 record)
      return { envelope with
        message.kind := some kind, agreement := some kind.agreement, flow := some kind.flow }
  | some .source => .ok { envelope with message.source := record.value }
  | some .dest => .ok { envelope with message.dest := record.value }
  | some .member =>
      .ok { envelope with message.members := envelope.message.members ++ [record.value] }
  | some .intKey =>
      .ok { envelope with
        message.intKeys := envelope.message.intKeys ++ [record.value]
        printedKeys := envelope.printedKeys ++ [Base64.encode record.value] }
  | some .nonce => .ok { envelope with message.nonces := envelope.message.nonces ++ [record.value] }
  | some .pubKey =>
      .ok { envelope with message.pubKeys := envelope.message.pubKeys ++ [record.value] }
  | some .sessionSignature =>
      .ok { envelope with message.sessionSignature := some record.value }
  | some .signingKey => .ok { envelope with message.signingKey := some record.value }
  | some .signature | some .payload | some .initialVector | some .sessionHint | none =>
      .error (.format (.unexpectedField record.tag))

/-- A message that is being read, and whether its route has been named so far. -/
structure Draft where
  envelope : Envelope
  hasSource : Bool := false
  hasDest : Bool := false
  deriving DecidableEq, Repr

namespace Draft

def start (signature raw : Bytes) : Draft where
  envelope := { signature, raw }

def read (draft : Draft) (record : Record) : Except DecodeError Draft := do
  let hasSource := draft.hasSource || record.tag == Field.source.tag
  let hasDest := draft.hasDest || record.tag == Field.dest.tag
  let envelope ← draft.envelope.read record
  return { envelope, hasSource, hasDest }

/-- What the records have to say together. -/
def checkComplete (draft : Draft) : Except FormatError Unit :=
  if draft.envelope.version.isNone then .error .missingVersion
  else if draft.envelope.message.kind.isNone then .error .missingKind
  else if !draft.hasSource || !draft.hasDest then .error .missingRoute
  else if draft.envelope.message.KeysFitMembers then .ok ()
  else .error .moreKeysThanMembers

end Draft

/-- The leading signature and the content that it covers. -/
def splitSignature (data : Bytes) : Except DecodeError (Bytes × Bytes) :=
  if Reader.peekTag? data = some Field.signature.tag then
    match Reader.next data with
    | (.error error, _) => .error (.read error)
    | (.ok record, content) => .ok (record.value, content)
  else .error (.format .noLeadingSignature)

namespace Envelope

/-- Reads a message without looking at its signature. -/
def parse (data : Bytes) : Except DecodeError Envelope := do
  let (signature, content) ← splitSignature data
  let draft ← Reader.readInto .read Draft.read (.start signature content) content
  draft.checkComplete.mapError .format
  return draft.envelope

/-- The key to verify a message with: the given one, or else the one listed for its source. -/
def usableKey? (envelope : Envelope) (given : Option Bytes) : Option Bytes :=
  (given <|> envelope.message.listedKey?).filter (·.length == 32)

def verifiesUnder (envelope : Envelope) (scheme : SignatureScheme) (key : Bytes) :
    Except KeyError Bool :=
  scheme.verifyWith key (signatureLabel ++ envelope.raw) envelope.signature

/-- The message about an envelope that there is no key for. -/
def unverifiedLine (envelope : Envelope) : Log.Line :=
  ⟨.warn, logComponent, Bytes.ofString "No usable key to verify greet from " ++ envelope.message.source⟩

/-- The message about an envelope whose signature does not fit. -/
def suspectLine (envelope : Envelope) : Log.Line :=
  ⟨.warn, logComponent, Bytes.ofString "Bad signature on greet from " ++ envelope.message.source⟩

def decodedLine (envelope : Envelope) : Log.Line :=
  let target :=
    if envelope.message.isBroadcast then Bytes.ofString "everyone" else envelope.message.dest
  ⟨.debug, logComponent,
    Bytes.ofString "Decoded " ++ (envelope.message.kind.map Kind.name).getD [] ++
      Bytes.ofString " from " ++ envelope.message.source ++ Bytes.ofString " to " ++ target⟩

/-- The messages about an envelope whose signature has been looked at. -/
def verdictLines (envelope : Envelope) : List Log.Line :=
  (if envelope.verified then [] else [envelope.suspectLine]) ++ [envelope.decodedLine]

/-- A message that cannot be verified is still accepted, and says so. -/
def verify (envelope : Envelope) (scheme : SignatureScheme) (given : Option Bytes) :
    Except KeyError (Envelope × List Log.Line) :=
  match envelope.usableKey? given with
  | none => .ok (envelope, [envelope.unverifiedLine])
  | some key => do
      let verified ← envelope.verifiesUnder scheme key
      let judged : Envelope := { envelope with verified }
      return (judged, judged.verdictLines)

def decode (scheme : SignatureScheme) (given : Option Bytes) (data : Bytes) :
    Except DecodeError (Envelope × List Log.Line) := do
  let envelope ← parse data
  (envelope.verify scheme given).mapError .key

end Envelope

end GroupChat.Greet
