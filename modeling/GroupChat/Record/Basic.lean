import GroupChat.Record.Word

/-!
Records: a two-byte tag, a two-byte length and a value. A writer puts records and raw bytes one after
the other; a call that fails writes nothing.
-/

namespace GroupChat

structure Record where
  tag : UInt16
  value : Bytes
  deriving DecidableEq, Repr

namespace Record

def maxValueSize : Nat := 65535

def encode (record : Record) : Except WriteError Bytes := do
  if maxValueSize < record.value.length then throw .valueTooLong
  let tag ← Integer.encode record.tag.toNat 2
  let length ← Integer.encode record.value.length 2
  return tag ++ length ++ record.value

def encodeAll (records : List Record) : Except WriteError Bytes :=
  return (← records.mapM encode).flatten

def integer (record : Record) : Except ReadError Nat := (Word.decode record.value).map UInt64.toNat

end Record

inductive WriteStep where
  | record (item : Record)
  | integer (tag : UInt16) (value width : Nat)
  | raw (content : Bytes)
  deriving DecidableEq, Repr

def WriteStep.encode : WriteStep → Except WriteError Bytes
  | .record item => item.encode
  | .integer tag value width => do Record.encode ⟨tag, ← Integer.encode value width⟩
  | .raw content => .ok content

structure Writer where
  bytes : Bytes := []
  deriving DecidableEq, Repr

namespace Writer

def size (writer : Writer) : Nat := writer.bytes.length

/-- The outcome of one call, the size after it, and the writer after it. -/
def step (writer : Writer) (call : WriteStep) : Except WriteError Nat × Writer :=
  match call.encode with
  | .error error => (.error error, writer)
  | .ok content =>
      let next : Writer := ⟨writer.bytes ++ content⟩
      (.ok next.size, next)

def run (writer : Writer) : List WriteStep → List (Except WriteError Nat) × Writer
  | [] => ([], writer)
  | call :: calls =>
      let (outcome, next) := writer.step call
      let (outcomes, final) := next.run calls
      (outcome :: outcomes, final)

end Writer

end GroupChat
