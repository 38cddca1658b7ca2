import GroupChat.Greet.Summary
import GroupChat.Greet.Wire

/-!
The operations of the codec as they are carried out under a logger, with every message where it is given:
between one thing that may fail and the next, and before an early return.
-/

namespace GroupChat

namespace Greet

def Message.encodeLogged (scheme : SignatureScheme) (message : Message) (key : SigningKey) :
    Log.Logged EncodeError Bytes := do
  let content ← .of message.encodeContent
  let signature := scheme.sign key.seed (signatureLabel ++ content)
  let front ← .of ((Field.signature.record signature).encode.mapError .write)
  let data := front ++ content
  Log.tell (message.encodedLine data)
  return data

namespace Envelope

/-- The messages about the key material that a message carries. -/
def secretLines (envelope : Envelope) : List Log.Line :=
  let line (name : Bytes) (index : Nat) (value : Bytes) : Log.Line :=
    ⟨.crypto, logComponent,
      name ++ Bytes.ofString "[" ++ Bytes.ofNat index ++ Bytes.ofString "] = " ++ value⟩
  envelope.printedKeys.mapIdx (line (Bytes.ofString "int_key")) ++
    (envelope.message.nonces.map Base64.encode).mapIdx (line (Bytes.ofString "nonce"))

def decodeLogged (scheme : SignatureScheme) (given : Option Bytes) (data : Bytes) :
    Log.Logged DecodeError Envelope := do
  let envelope ← .of (parse data)
  envelope.secretLines.forM Log.tell
  match envelope.usableKey? given with
  | none =>
      Log.tell envelope.unverifiedLine
      return envelope
  | some key =>
      let verified ← .of ((envelope.verifiesUnder scheme key).mapError .key)
      let judged : Envelope := { envelope with verified }
      if !verified then Log.tell judged.suspectLine
      Log.tell judged.decodedLine
      return judged

end Envelope

end Greet

namespace Codec

open Greet

inductive Call where
  | encodeContent (message : Message)
  | encode (message : Message) (key : SigningKey)
  | decode (given : Option Bytes) (data : Bytes)
  | summarise (data : Bytes)
  | frame (content : Bytes)
  | query (text : Bytes)
  | error (text : Bytes)
  | parse (text : Bytes)
  deriving DecidableEq, Repr

inductive Error where
  | encode (error : EncodeError)
  | decode (error : DecodeError)
  | parse (error : Wire.ParseError)
  deriving DecidableEq, Repr

inductive Answer where
  | bytes (value : Bytes)
  | envelope (value : Envelope)
  | summary (value : Summary)
  | parsed (category : Category) (content : Bytes)
  deriving DecidableEq, Repr

def Call.perform (scheme : SignatureScheme) : Call → Log.Logged Error Answer
  | .encodeContent message => do
      return .bytes (← .of (message.encodeContent.mapError .encode))
  | .encode message key => do
      return .bytes (← (message.encodeLogged scheme key).mapError .encode)
  | .decode given data => do
      return .envelope (← (Envelope.decodeLogged scheme given data).mapError .decode)
  | .summarise data => do
      return .summary (← .of ((Summary.ofContent data).mapError .decode))
  | .frame content => return .bytes (Wire.encode content)
  | .query text => return .bytes (Wire.query text)
  | .error text => return .bytes (Wire.error text)
  | .parse text => do
      let (category, content) ← .of ((Wire.parse text).mapError .parse)
      return .parsed category content

end Codec

end GroupChat
