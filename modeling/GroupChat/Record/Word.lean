import GroupChat.Record.Integer

/-!
Integers in words of 64 bits, which are written and read byte by byte, by shifting. A shift that leaves no
place of a word is not defined, and a byte is stored only where there is one already. Either fault is told
from the errors that writing reports.
-/

namespace GroupChat

inductive WordError where
  | write (error : WriteError)
  | undefinedShift
  | outOfRange
  deriving DecidableEq, Repr

namespace Word

/-- How many places a word has. -/
def places : Nat := 64

/-- A word without its lowest places. -/
def shiftRight (value : UInt64) (count : Nat) : Except WordError UInt64 :=
  if count < places then .ok (value >>> UInt64.ofNat count) else .error .undefinedShift

/-- Puts a byte in the place of another one. -/
def store (out : Bytes) (index : Nat) (byte : UInt8) : Except WordError Bytes :=
  if index < out.length then .ok (out.set index byte) else .error .outOfRange

/-- Stores that byte of a value which belongs at an index, with the least significant one at the end. -/
def storeByte (value : UInt64) (width : Nat) (out : Bytes) (index : Nat) : Except WordError Bytes := do
  let shifted ← shiftRight value (8 * (width - index - 1))
  store out index shifted.toUInt8

def encode (value : UInt64) (width : Nat) : Except WordError Bytes := do
  if Integer.maxWidth < width then throw (.write .integerTooWide)
  if width < Integer.maxWidth then
    if (← shiftRight value (8 * width)) ≠ 0 then throw (.write .integerTooLarge)
  (List.range width).foldlM (storeByte value width) (List.replicate width 0)

/-- Puts a byte below a value. The highest byte of the value falls out. -/
def shiftIn (value : UInt64) (byte : UInt8) : UInt64 := (value <<< 8) + byte.toUInt64

def decode (data : Bytes) : Except ReadError UInt64 :=
  if Integer.maxWidth < data.length then .error .integerTooWide else .ok (data.foldl shiftIn 0)

theorem shiftIn_ofNat (value : Nat) (byte : UInt8) :
    shiftIn (UInt64.ofNat value) byte = UInt64.ofNat (value * 256 + byte.toNat) := by
  apply UInt64.toNat.inj
  have hcount : (8 : UInt64).toNat % 64 = 8 := rfl
  rw [shiftIn, UInt64.toNat_add, UInt64.toNat_shiftLeft, UInt8.toNat_toUInt64, hcount,
    Nat.shiftLeft_eq, UInt64.toNat_ofNat', UInt64.toNat_ofNat']
  omega

/-- Shifting in one byte after the other gives their number, as far as a word can hold it. -/
theorem foldl_shiftIn (data : Bytes) (value : Nat) :
    data.foldl shiftIn (UInt64.ofNat value) =
      UInt64.ofNat (data.foldl (fun value byte => value * 256 + byte.toNat) value) := by
  induction data generalizing value with
  | nil => rfl
  | cons byte data ih => rw [List.foldl_cons, shiftIn_ofNat, ih, List.foldl_cons]

end Word

end GroupChat
