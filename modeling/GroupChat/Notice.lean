import GroupChat.Control

/-!
Actions are what a member asks of a channel, notices are what the channel tells its members. Both are
controls or opaque payloads.
-/

namespace GroupChat

inductive Action where
  | raw (payload : Bytes) (recipients : MemberSet)
  | control (change : Control)
  deriving DecidableEq

inductive Notice where
  | raw (payload : Bytes) (sender : MemberId)
  | control (change : Control)
  deriving DecidableEq

inductive StateError where
  | enteredTwice
  | leftWhileOutside
  | changedWhileOutside
  | alreadyPresent
  | notPresent
  | ownDeparture
  deriving DecidableEq, Repr

def StateError.message : StateError → Bytes
  | .enteredTwice => Bytes.ofString "SelfEnter received while already joined"
  | .leftWhileOutside => Bytes.ofString "SelfLeave received while not joined"
  | .changedWhileOutside => Bytes.ofString "MembershipDelta received while not joined"
  | .alreadyPresent => Bytes.ofString "Entering members are already present"
  | .notPresent => Bytes.ofString "Leaving members are not present"
  | .ownDeparture => Bytes.ofString "Own departure must be a SelfLeave"

inductive RequestError where
  | nothingToReceive
  | outOfOrder (sender : MemberId)
  | noNotices
  | unknownMember (id : MemberId)
  | noNoticesFor (id : MemberId)
  deriving DecidableEq, Repr

def RequestError.message : RequestError → Bytes
  | .nothingToReceive => Bytes.ofString "Nothing to receive at this position"
  | .outOfOrder sender =>
      Bytes.ofString "Packets from " ++ sender ++ Bytes.ofString " must be processed in order"
  | .noNotices => Bytes.ofString "No notices waiting"
  | .unknownMember id => Bytes.ofString "Unknown member " ++ id
  | .noNoticesFor id => Bytes.ofString "No notices waiting for " ++ id

inductive Failure where
  | control (error : ControlError)
  | patch (error : OrderedSet.PatchError)
  | state (error : StateError)
  | request (error : RequestError)
  /-- Raised by a subscriber or a transport. -/
  | raised (text : Bytes)
  deriving DecidableEq

/-- The text of a failure ends before its first zero byte. -/
def Failure.message (failure : Failure) : Bytes :=
  Bytes.untilZero <|
    match failure with
    | .control error => error.message
    | .patch error => error.message
    | .state error => error.message
    | .request error => error.message
    | .raised text => text

end GroupChat
