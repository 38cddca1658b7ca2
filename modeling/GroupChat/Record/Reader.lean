import GroupChat.Record.Basic

/-!
Reading records off the front of a byte string. A read that fails may have consumed a part of the
header: nothing if the tag is cut short, the tag if the length is, and the whole header if the value
is. So every read gives its outcome together with the bytes that are left.
-/

namespace GroupChat.Reader

def peekTag? : Bytes → Option UInt16
  | high :: low :: _ => some (UInt16.ofNat (high.toNat * 256 + low.toNat))
  | _ => none

/-- Splits off a number of bytes, or consumes nothing. -/
def take (count : Nat) (onShort : ReadError) (data : Bytes) : Except ReadError Bytes × Bytes :=
  let front := data.take count
  if front.length < count then (.error onShort, data) else (.ok front, data.drop count)

def integer (width : Nat) (data : Bytes) : Except ReadError Nat × Bytes :=
  match take width .pastEnd data with
  | (.error error, rest) => (.error error, rest)
  | (.ok front, rest) => (.ok (Integer.ofBigEndian front), rest)

def next (data : Bytes) : Except ReadError Record × Bytes :=
  match integer 2 data with
  | (.error error, rest) => (.error error, rest)
  | (.ok tag, rest) =>
      match integer 2 rest with
      | (.error error, rest) => (.error error, rest)
      | (.ok length, rest) =>
          match take length .valuePastEnd rest with
          | (.error error, rest) => (.error error, rest)
          | (.ok value, rest) => (.ok ⟨UInt16.ofNat tag, value⟩, rest)

theorem take_eq_ok {count : Nat} {onShort : ReadError} {data front rest : Bytes}
    (htake : take count onShort data = (.ok front, rest)) :
    data = front ++ rest ∧ front.length = count := by
  simp only [take] at htake
  split at htake
  · simp at htake
  · rename_i hlong
    simp only [Prod.mk.injEq, Except.ok.injEq] at htake
    obtain ⟨rfl, rfl⟩ := htake
    refine ⟨(List.take_append_drop count data).symm, ?_⟩
    have hle := List.length_take_le count data
    omega

theorem integer_eq_ok {width value : Nat} {data rest : Bytes}
    (hinteger : integer width data = (.ok value, rest)) :
    data.length = width + rest.length := by
  unfold integer at hinteger
  split at hinteger
  · simp at hinteger
  · rename_i front rest' htake
    simp only [Prod.mk.injEq, Except.ok.injEq] at hinteger
    obtain ⟨_, rfl⟩ := hinteger
    obtain ⟨rfl, hlength⟩ := take_eq_ok htake
    simp [hlength]

/-- A record takes four bytes more than its value. -/
theorem length_of_next_eq_ok {data rest : Bytes} {record : Record}
    (hnext : next data = (.ok record, rest)) :
    data.length = 4 + record.value.length + rest.length := by
  unfold next at hnext
  split at hnext
  · simp at hnext
  · rename_i tag afterTag htag
    split at hnext
    · simp at hnext
    · rename_i length afterLength hlength
      split at hnext
      · simp at hnext
      · rename_i value afterValue hvalue
        simp only [Prod.mk.injEq, Except.ok.injEq] at hnext
        obtain ⟨rfl, rfl⟩ := hnext
        have htag := integer_eq_ok htag
        have hlength := integer_eq_ok hlength
        obtain ⟨rfl, hvalue⟩ := take_eq_ok hvalue
        simp only [List.length_append] at hlength
        simp only [htag, hlength]
        omega

/-- Reads records to the end of the data. Each is taken into a state before the next one is read. -/
def readInto {σ ε : Type} (onError : ReadError → ε) (step : σ → Record → Except ε σ) (state : σ)
    (data : Bytes) : Except ε σ :=
  if data.isEmpty then .ok state
  else match _hnext : next data with
    | (.error error, _) => .error (onError error)
    | (.ok record, rest) =>
        match step state record with
        | .error error => .error error
        | .ok later => readInto onError step later rest
termination_by data.length
decreasing_by
  have := length_of_next_eq_ok _hnext
  omega

def readAll (data : Bytes) : Except ReadError (List Record) :=
  readInto id (fun records record => .ok (records ++ [record])) [] data

/-- The first record with a given tag. What comes after it is not read. -/
def firstTagged? (tag : UInt16) (data : Bytes) : Except ReadError (Option Record) :=
  if data.isEmpty then .ok none
  else match _hnext : next data with
    | (.error error, _) => .error error
    | (.ok record, rest) => if record.tag = tag then .ok (some record) else firstTagged? tag rest
termination_by data.length
decreasing_by
  have := length_of_next_eq_ok _hnext
  omega

end GroupChat.Reader
