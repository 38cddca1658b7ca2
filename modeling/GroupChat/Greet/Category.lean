import GroupChat.Member

/-!
What a message is for, and where it comes from.
-/

namespace GroupChat.Greet

inductive Category where
  | plain
  | query
  | greet
  | data
  | error
  deriving DecidableEq, Repr

namespace Category

def code : Category → Nat
  | .plain => 0
  | .query => 1
  | .greet => 2
  | .data => 3
  | .error => 4

def all : List Category := [.plain, .query, .greet, .data, .error]

def ofCode? (code : Nat) : Option Category := all.find? (·.code == code)

def name : Category → Bytes
  | .plain => Bytes.ofString "plain"
  | .query => Bytes.ofString "query"
  | .greet => Bytes.ofString "greet"
  | .data => Bytes.ofString "data"
  | .error => Bytes.ofString "error"

def nameOfCode (code : Nat) : Bytes :=
  match ofCode? code with
  | some category => category.name
  | none => Bytes.ofString "unknown"

end Category

/-- Where a message comes from, relative to the members that it lists. -/
inductive Origin where
  | participant
  | outsider
  | unknown
  deriving DecidableEq, Repr

namespace Origin

def classify (source : MemberId) (members : List MemberId) : Origin :=
  if members.isEmpty then .unknown
  else if source ∈ members then .participant
  else .outsider

def name : Origin → Bytes
  | .participant => Bytes.ofString "participant"
  | .outsider => Bytes.ofString "outsider"
  | .unknown => Bytes.ofString "unknown"

/-- Counted from zero; every other number is unknown as well. -/
def ofCode : Nat → Origin
  | 0 => .participant
  | 1 => .outsider
  | _ => .unknown

end Origin

end GroupChat.Greet
