import GroupChat.Greet.Decode

/-!
Wire texts: how messages travel as chat text. Whatever does not start with the marker is plain text;
behind the marker comes an error, base64 content between a colon and a full stop, or a query that names
a version.
-/

namespace GroupChat.Wire

open Greet

inductive ParseError where
  | base64 (error : Base64.DecodeError)
  | content (error : DecodeError)
  | unknown
  deriving DecidableEq, Repr

def ParseError.message : ParseError → Bytes
  | .base64 error => error.message
  | .content error => error.message
  | .unknown => Bytes.ofString "Unknown mpENC message"

def marker : Bytes := Bytes.ofString "?mpENC"

def errorMarker : Bytes := Bytes.ofString " Error:"

def colon : UInt8 := 58

def fullStop : UInt8 := 46

def questionMark : UInt8 := 63

/-- The letter v, which stands before a version. -/
def versionLetter : UInt8 := 118

def encode (content : Bytes) : Bytes := marker ++ [colon] ++ Base64.encode content ++ [fullStop]

def query (text : Bytes) : Bytes :=
  marker ++ [versionLetter] ++ Bytes.ofNat protocolVersion ++ [questionMark] ++ text

def error (text : Bytes) : Bytes := marker ++ errorMarker ++ text ++ [fullStop]

def isDigit (byte : UInt8) : Bool := 48 ≤ byte && byte ≤ 57

/-- Where the digits end that the text has from a position on. -/
def digitsEnd (text : Bytes) (position : Nat) : Nat :=
  if hinside : position < text.length then
    if isDigit text[position] then digitsEnd text (position + 1) else position
  else position
termination_by text.length - position

/-- The digits of the first version that the text names from a position on. -/
def versionFrom? (text : Bytes) (start : Nat) : Option Bytes :=
  match hletter : Bytes.indexFrom? versionLetter text start with
  | none => none
  | some position =>
      let stop := digitsEnd text (position + 1)
      if position + 1 < stop ∧ text[stop]? = some questionMark then
        some ((text.drop (position + 1)).take (stop - (position + 1)))
      else versionFrom? text (position + 1)
termination_by text.length - start
decreasing_by
  have hbounds := Bytes.lt_length_of_indexFrom? hletter
  omega

/-- The digits of the first version that the text names. -/
def namedVersion? (text : Bytes) : Option Bytes := versionFrom? text 0

/-- Content without a category is taken for a greet message. -/
def categoryOf (content : Bytes) : Except DecodeError Category := do
  match ← (Reader.firstTagged? Field.category.tag content).mapError .read with
  | none => return .greet
  | some record =>
      if (← fixedWidth 1 record) = Category.data.code then return .data else return .greet

/-- The text between a leading colon and a trailing full stop. -/
def framed? (text : Bytes) : Option Bytes :=
  match text with
  | first :: rest =>
      if first = colon ∧ rest.getLast? = some fullStop then some rest.dropLast else none
  | [] => none

def parse (text : Bytes) : Except ParseError (Category × Bytes) :=
  match Bytes.dropLeading? marker text with
  | none => .ok (.plain, text)
  | some rest =>
      match Bytes.dropLeading? errorMarker rest with
      | some message => .ok (.error, Bytes.dropTrailing fullStop message)
      | none =>
          match framed? rest with
          | some encoded => do
              let content ← (Base64.decode encoded).mapError .base64
              return (← (categoryOf content).mapError .content, content)
          | none =>
              if namedVersion? rest = some (Bytes.ofNat protocolVersion) then
                .ok (.query, Integer.bigEndian 1 protocolVersion)
              else .error .unknown

end GroupChat.Wire
