import GroupChat.Record.Reader

/-!
Reading records call by call. A cursor is a place in a byte string. A call that fails may leave it inside a
record, and the next call goes on from there. Bytes are taken out by their index, and an index outside the
data is a fault of its own, which is told from the errors that reading reports.
-/

namespace GroupChat

inductive CursorError where
  | read (error : ReadError)
  | outOfRange
  deriving DecidableEq, Repr

structure Cursor where
  data : Bytes
  position : Nat := 0
  deriving DecidableEq, Repr

namespace Cursor

/-- How many bytes are left. -/
def size (cursor : Cursor) : Nat := cursor.data.length - cursor.position

def isEmpty (cursor : Cursor) : Bool := cursor.position == cursor.data.length

def advance (cursor : Cursor) (count : Nat) : Cursor :=
  { cursor with position := cursor.position + count }

def byteAt (cursor : Cursor) (index : Nat) : Except CursorError UInt8 :=
  match cursor.data[index]? with
  | none => .error .outOfRange
  | some byte => .ok byte

/-- The bytes from one index up to another one, which is not among them. -/
def slice (cursor : Cursor) (start stop : Nat) : Except CursorError Bytes :=
  if start ≤ stop ∧ stop ≤ cursor.data.length then .ok ((cursor.data.take stop).drop start)
  else .error .outOfRange

/-- The tag of the next record. Nothing is consumed. -/
def peekTag? (cursor : Cursor) : Except CursorError (Option UInt16) :=
  if cursor.size < 2 then .ok none
  else do
    let high ← cursor.byteAt cursor.position
    let low ← cursor.byteAt (cursor.position + 1)
    return some (UInt16.ofNat (high.toNat * 256 + low.toNat))

/-- Everything that is not yet read. -/
def remaining (cursor : Cursor) : Except CursorError Bytes :=
  cursor.slice cursor.position cursor.data.length

/-- Shifts bytes into a word, one after the other. -/
def shiftIn (cursor : Cursor) (value : UInt64) : (count : Nat) → Except CursorError UInt64 × Cursor
  | 0 => (.ok value, cursor)
  | count + 1 =>
      match cursor.byteAt cursor.position with
      | .error error => (.error error, cursor)
      | .ok byte => (cursor.advance 1).shiftIn (Word.shiftIn value byte) count

def integer (cursor : Cursor) (width : Nat) : Except CursorError UInt64 × Cursor :=
  if cursor.size < width then (.error (.read .pastEnd), cursor) else cursor.shiftIn 0 width

def next (cursor : Cursor) : Except CursorError Record × Cursor :=
  match cursor.integer 2 with
  | (.error error, cursor) => (.error error, cursor)
  | (.ok tag, cursor) =>
      match cursor.integer 2 with
      | (.error error, cursor) => (.error error, cursor)
      | (.ok length, cursor) =>
          if cursor.size < length.toNat then (.error (.read .valuePastEnd), cursor)
          else match cursor.slice cursor.position (cursor.position + length.toNat) with
            | .error error => (.error error, cursor)
            | .ok value => (.ok ⟨tag.toUInt16, value⟩, cursor.advance length.toNat)

/-- Reads into a record that is there already, which stays as it is if nothing can be read. -/
def extract (cursor : Cursor) (target : Record) : Except CursorError Unit × Record × Cursor :=
  match cursor.next with
  | (.error error, cursor) => (.error error, target, cursor)
  | (.ok record, cursor) => (.ok (), record, cursor)

/-- The calls that move a cursor. -/
inductive Call where
  | next
  | extract (target : Record)
  deriving DecidableEq, Repr

/-- The cursor after some calls, whatever each of them came to. -/
def after (cursor : Cursor) : List Call → Cursor
  | [] => cursor
  | .next :: calls => cursor.next.2.after calls
  | .extract target :: calls => (cursor.extract target).2.2.after calls

end Cursor

end GroupChat
