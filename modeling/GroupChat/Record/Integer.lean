import GroupChat.Bytes

/-!
Unsigned integers of at most eight bytes, most significant byte first. Main statements: an encoding
has the width that was asked for, and decoding it gives the value back.
-/

namespace GroupChat

inductive WriteError where
  | integerTooWide
  | integerTooLarge
  | valueTooLong
  deriving DecidableEq, Repr

def WriteError.message : WriteError → Bytes
  | .integerTooWide => Bytes.ofString "Integer length too large"
  | .integerTooLarge => Bytes.ofString "Integer does not fit in requested length"
  | .valueTooLong => Bytes.ofString "Record value exceeds maximum size"

inductive ReadError where
  | pastEnd
  | valuePastEnd
  | integerTooWide
  deriving DecidableEq, Repr

def ReadError.message : ReadError → Bytes
  | .pastEnd => Bytes.ofString "Attempt to read past end of buffer"
  | .valuePastEnd => Bytes.ofString "Record length exceeds available data"
  | .integerTooWide => Bytes.ofString "Integer value too long"

namespace Integer

def maxWidth : Nat := 8

/-- How many values a width has room for. -/
def capacity (width : Nat) : Nat := Nat.pow 256 width

def bigEndian : (width value : Nat) → Bytes
  | 0, _ => []
  | width + 1, value => bigEndian width (value / 256) ++ [UInt8.ofNat value]

def ofBigEndian (data : Bytes) : Nat := data.foldl (fun value byte => value * 256 + byte.toNat) 0

def encode (value width : Nat) : Except WriteError Bytes :=
  if maxWidth < width then .error .integerTooWide
  else if value < capacity width then .ok (bigEndian width value)
  else .error .integerTooLarge

def decode (data : Bytes) : Except ReadError Nat :=
  if maxWidth < data.length then .error .integerTooWide else .ok (ofBigEndian data)

@[simp]
theorem length_bigEndian (width value : Nat) : (bigEndian width value).length = width := by
  induction width generalizing value with
  | zero => rfl
  | succ width ih => simp [bigEndian, ih]

@[simp]
theorem ofBigEndian_append_singleton (data : Bytes) (byte : UInt8) :
    ofBigEndian (data ++ [byte]) = ofBigEndian data * 256 + byte.toNat := by
  simp [ofBigEndian]

theorem capacity_succ (width : Nat) : capacity (width + 1) = capacity width * 256 := rfl

theorem ofBigEndian_bigEndian {width value : Nat} (hvalue : value < capacity width) :
    ofBigEndian (bigEndian width value) = value := by
  induction width generalizing value with
  | zero =>
      have : value = 0 := Nat.lt_one_iff.1 hvalue
      simp [bigEndian, ofBigEndian, this]
  | succ width ih =>
      have hrest : value / 256 < capacity width := by
        rw [capacity_succ] at hvalue
        omega
      simp only [bigEndian, ofBigEndian_append_singleton, ih hrest, UInt8.toNat_ofNat']
      omega

end Integer

end GroupChat
