import GroupChat.Notice

/-!
The membership of a channel as its owner sees it: nothing while the owner is outside, otherwise the
members. Controls change it, and it decides which actions are accepted.
-/

namespace GroupChat

abbrev Standing := Option MemberSet

def Control.accepted (owner : MemberId) (standing : Standing) : Control → Bool
  | .selfEnter => standing.isNone
  | .selfLeave => standing.isSome
  | .delta change =>
      standing.isSome && !change.enter.contains owner && !change.leave.contains owner

def Action.accepted (owner : MemberId) (standing : Standing) : Action → Bool
  | .raw _ _ => standing.isSome
  | .control change => change.accepted owner standing

def Control.apply (owner : MemberId) : Control → Standing → Except Failure Standing
  | .selfEnter, none => .ok (some (OrderedSet.singleton owner))
  | .selfEnter, some _ => .error (.state .enteredTwice)
  | .selfLeave, none => .error (.state .leftWhileOutside)
  | .selfLeave, some _ => .ok none
  | .delta _, none => .error (.state .changedWhileOutside)
  | .delta change, some members =>
      if !change.enter.isDisjoint members then .error (.state .alreadyPresent)
      else if !change.leave.isSubset members then .error (.state .notPresent)
      else if change.leave.contains owner then .error (.state .ownDeparture)
      else match members.patch change.enter change.leave with
        | .error error => .error (.patch error)
        | .ok patched => .ok (some patched)

end GroupChat
