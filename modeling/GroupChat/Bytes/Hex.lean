import GroupChat.Bytes

/-!
Hexadecimal text: two lower-case digits per byte. Reading also takes upper-case digits. Long byte
strings have a shortened printed form.
-/

namespace GroupChat.Hex

inductive DecodeError where
  | oddLength
  | invalidDigit
  deriving DecidableEq, Repr

def DecodeError.message : DecodeError → Bytes
  | .oddLength => Bytes.ofString "Odd-length hex string"
  | .invalidDigit => Bytes.ofString "Invalid hex character"

def digit (value : UInt8) : UInt8 := if value < 10 then value + 48 else value + 87

def digitValue? (character : UInt8) : Option UInt8 :=
  if 48 ≤ character ∧ character ≤ 57 then some (character - 48)
  else if 97 ≤ character ∧ character ≤ 102 then some (character - 87)
  else if 65 ≤ character ∧ character ≤ 70 then some (character - 55)
  else none

def encode (data : Bytes) : Bytes := data.flatMap fun byte => [digit (byte / 16), digit (byte % 16)]

/-- Joins digit values in pairs, onto the bytes read so far in reverse. -/
def joinPairs (reversed : Bytes) : (values : Bytes) → Bytes
  | high :: low :: rest => joinPairs ((high * 16 + low) :: reversed) rest
  | _ => reversed.reverse

/-- The length is looked at before any character. -/
def decode (text : Bytes) : Except DecodeError Bytes :=
  if text.length % 2 = 1 then .error .oddLength
  else match text.mapM digitValue? with
    | none => .error .invalidDigit
    | some values => .ok (joinPairs [] values)

/-- From this size on only a leading part is printed. -/
def printLimit : Nat := 65535

def print (data : Bytes) : Bytes :=
  if data.length < printLimit then encode data
  else encode (data.take printLimit) ++ Bytes.ofString "..."

end GroupChat.Hex
