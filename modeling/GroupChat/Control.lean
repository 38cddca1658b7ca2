import GroupChat.Member

/-!
Controls: validated changes to the membership of a channel. Sent to a channel a control is a request,
received from one it is a fact.
-/

namespace GroupChat

structure Delta where
  enter : MemberSet
  leave : MemberSet
  disjoint : enter.isDisjoint leave = true
  nonempty : (enter.isEmpty && leave.isEmpty) = false
  deriving DecidableEq

inductive Control where
  | selfEnter
  | selfLeave
  | delta (change : Delta)
  deriving DecidableEq

inductive ControlError where
  | enterWithLeave
  | leaveWithEnter
  | emptyDelta
  | overlappingDelta (both : MemberSet)
  deriving DecidableEq

namespace ControlError

inductive Kind where
  | contradictoryIntent
  | emptyDelta
  | overlappingDelta
  deriving DecidableEq, Repr

namespace Kind

def code : Kind → Nat
  | .contradictoryIntent => 0
  | .emptyDelta => 1
  | .overlappingDelta => 2

def all : List Kind := [.contradictoryIntent, .emptyDelta, .overlappingDelta]

def ofCode? (code : Nat) : Option Kind := all.find? (·.code == code)

def name : Kind → Bytes
  | .contradictoryIntent => Bytes.ofString "contradictory_intent"
  | .emptyDelta => Bytes.ofString "empty_delta"
  | .overlappingDelta => Bytes.ofString "overlapping_delta"

def nameOfCode (code : Nat) : Bytes :=
  match ofCode? code with
  | some kind => kind.name
  | none => Bytes.ofString "unknown"

end Kind

def kind : ControlError → Kind
  | .enterWithLeave | .leaveWithEnter => .contradictoryIntent
  | .emptyDelta => .emptyDelta
  | .overlappingDelta _ => .overlappingDelta

def reason : ControlError → Bytes
  | .enterWithLeave => Bytes.ofString "Cannot enter together with a leave request"
  | .leaveWithEnter => Bytes.ofString "Cannot leave together with an enter request"
  | .emptyDelta => Bytes.ofString "Nobody enters or leaves"
  | .overlappingDelta both => Bytes.ofString "Members both enter and leave: " ++ both.print

def message (error : ControlError) : Bytes :=
  error.kind.name ++ Bytes.ofString ": " ++ error.reason

end ControlError

namespace Control

def ofSets (enter leave : MemberSet) : Except ControlError Control :=
  if hempty : (enter.isEmpty && leave.isEmpty) = true then .error .emptyDelta
  else if hdisjoint : enter.isDisjoint leave = true then
    .ok (.delta ⟨enter, leave, hdisjoint, Bool.eq_false_iff.2 hempty⟩)
  else .error (.overlappingDelta (enter.inter leave))

def print : Control → Bytes
  | .selfEnter => Bytes.ofString "SelfEnter"
  | .selfLeave => Bytes.ofString "SelfLeave"
  | .delta change =>
      Bytes.ofString "MembershipDelta\x7benter=" ++ change.enter.print ++
        Bytes.ofString ", leave=" ++ change.leave.print ++ Bytes.ofString "\x7d"

/-- One half of a request: a flag, or the members that are meant. -/
inductive Field where
  | flag (value : Bool)
  | list (ids : List MemberId)
  | set (members : MemberSet)
  deriving DecidableEq

/-- The members that a field names. A flag names nobody. -/
def Field.members : Field → MemberSet
  | .flag _ => OrderedSet.empty
  | .list ids => OrderedSet.ofList ids
  | .set members => members

structure Request where
  enter : Option Field := none
  leave : Option Field := none
  deriving DecidableEq

def ofRequest (request : Request) : Except ControlError Control :=
  if request.enter = some (.flag true) then
    if request.leave.isSome then .error .enterWithLeave else .ok .selfEnter
  else if request.leave = some (.flag true) then
    if request.enter.isSome then .error .leaveWithEnter else .ok .selfLeave
  else
    ofSets ((request.enter.map Field.members).getD OrderedSet.empty)
      ((request.leave.map Field.members).getD OrderedSet.empty)

end Control

end GroupChat
