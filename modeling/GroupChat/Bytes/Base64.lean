import GroupChat.Bytes

/-!
Base64 text: three bytes as four digits of six bits, the last group padded. Blocks of it are coded by a
block coder, which takes a padding character anywhere as a zero digit and passes over some characters at
the ends. What it passed over is found by the size of what it gives; only padding in the last two places
shortens the result.
-/

namespace GroupChat.Base64

inductive DecodeError where
  | partialGroup
  | malformed
  deriving DecidableEq, Repr

def DecodeError.message : DecodeError → Bytes
  | .partialGroup => Bytes.ofString "Base64 length is not divisible by 4"
  | .malformed => Bytes.ofString "Malformed base64"

def padding : UInt8 := 61

def digit (value : UInt8) : UInt8 :=
  if value < 26 then value + 65
  else if value < 52 then value + 71
  else if value < 62 then value - 4
  else if value = 62 then 43
  else 47

def digitValue? (character : UInt8) : Option UInt8 :=
  if 65 ≤ character ∧ character ≤ 90 then some (character - 65)
  else if 97 ≤ character ∧ character ≤ 122 then some (character - 71)
  else if 48 ≤ character ∧ character ≤ 57 then some (character + 4)
  else if character = 43 then some 62
  else if character = 47 then some 63
  else if character = padding then some 0
  else none

/-- The four digits of three bytes. -/
def splitGroup (first second third : UInt8) : List UInt8 :=
  [first / 4, first % 4 * 16 + second / 16, second % 16 * 4 + third / 64, third % 64]

/-- The three bytes of four digits. -/
def joinGroup (first second third fourth : UInt8) : List UInt8 :=
  [first * 4 + second / 16, second * 16 + third / 4, third * 64 + fourth]

/-- Encodes onto the text written so far, which is held in reverse. -/
def encodeOnto (reversed : Bytes) : (data : Bytes) → Bytes
  | first :: second :: third :: rest =>
      encodeOnto (((splitGroup first second third).map digit).reverse ++ reversed) rest
  | [first, second] =>
      reversed.reverse ++ ((splitGroup first second 0).take 3).map digit ++ [padding]
  | [first] => reversed.reverse ++ ((splitGroup first 0 0).take 2).map digit ++ [padding, padding]
  | [] => reversed.reverse

/-- Joins digit values in groups of four, onto the bytes read so far in reverse. -/
def joinGroups (reversed : Bytes) : (values : Bytes) → Bytes
  | first :: second :: third :: fourth :: rest =>
      joinGroups ((joinGroup first second third fourth).reverse ++ reversed) rest
  | _ => reversed.reverse

/-- How a library codes whole blocks. -/
structure BlockCoder where
  encode : Bytes → Bytes
  decode : Bytes → Option Bytes

def isBlank (character : UInt8) : Bool := character ∈ ([32, 9] : Bytes)

/-- Blanks, line ends and the hyphen, which may stand behind the digits of a block. -/
def isTrailer (character : UInt8) : Bool := isBlank character || character ∈ ([10, 13, 45] : Bytes)

/-- Drops trailers off a reversed text as long as more than three characters are left. -/
def trimReversed : Bytes → Bytes
  | last :: previous =>
      if isTrailer last ∧ 3 ≤ previous.length then trimReversed previous else last :: previous
  | [] => []

/-- The digits of a block, and what may be among them. -/
def digitsOf (text : Bytes) : Bytes := (trimReversed (text.dropWhile isBlank).reverse).reverse

/-- The bytes of whole groups of digits. -/
def decodeGroups (digits : Bytes) : Option Bytes :=
  if digits.length % 4 = 0 then (digits.mapM digitValue?).map (joinGroups []) else none

/-- The usual block coder. -/
def BlockCoder.standard : BlockCoder where
  encode data := encodeOnto [] data
  decode text := decodeGroups (digitsOf text)

def encodeWith (coder : BlockCoder) (data : Bytes) : Bytes :=
  if data.isEmpty then [] else coder.encode data

/-- How many bytes the padding in the last two places stands for. -/
def padCount (text : Bytes) : Nat :=
  match text.reverse with
  | last :: previous :: _ => if last = padding then (if previous = padding then 2 else 1) else 0
  | _ => 0

/-- A coder gives three bytes for each four characters, unless it passed over some of them. -/
def decodeWith (coder : BlockCoder) (text : Bytes) : Except DecodeError Bytes :=
  if text.isEmpty then .ok []
  else if text.length % 4 ≠ 0 then .error .partialGroup
  else match coder.decode text with
    | none => .error .malformed
    | some bytes =>
        if bytes.length = text.length / 4 * 3 then .ok (bytes.take (bytes.length - padCount text))
        else .error .malformed

def encode (data : Bytes) : Bytes := encodeWith .standard data

def decode (text : Bytes) : Except DecodeError Bytes := decodeWith .standard text

end GroupChat.Base64
