import GroupChat.Record.Basic

/-!
Writing records part by part. A call appends a tag, a length and a value one after the other, each of them
encoded just before it is appended. An error ends the call there, and does not take back what was appended
before it.
-/

namespace GroupChat

/-- Appends to the bytes that were written so far, which an error leaves as they are. -/
abbrev Appending := ExceptT WriteError (StateM Bytes)

namespace Appending

def raw (content : Bytes) : Appending Unit := modify (· ++ content)

def record (tag : UInt16) (value : Bytes) : Appending Unit := do
  if Record.maxValueSize < value.length then throw .valueTooLong
  raw (← Integer.encode tag.toNat 2)
  raw (← Integer.encode value.length 2)
  raw value

def integer (tag : UInt16) (value width : Nat) : Appending Unit := do
  record tag (← Integer.encode value width)

end Appending

inductive WriteCall where
  | write (tag : UInt16) (value : Bytes)
  | put (item : Record)
  | integer (tag : UInt16) (value width : Nat)
  | raw (content : Bytes)
  deriving DecidableEq, Repr

namespace WriteCall

def append : WriteCall → Appending Unit
  | .write tag value => Appending.record tag value
  | .put item => Appending.record item.tag item.value
  | .integer tag value width => Appending.integer tag value width
  | .raw content => Appending.raw content

/-- Makes the calls one after the other, whatever they come to. Those that succeed give the size after
them. -/
def run : List WriteCall → Bytes → List (Except WriteError Nat) × Bytes
  | [], written => ([], written)
  | call :: calls, written =>
      let (outcome, next) := call.append.run written
      let (outcomes, final) := run calls next
      (outcome.map (fun _ => next.length) :: outcomes, final)

end WriteCall

end GroupChat
