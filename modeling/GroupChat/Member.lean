import GroupChat.OrderedSet.Basic

/-!
The members of a group. An id may be any byte string, the empty one included.
-/

namespace GroupChat

abbrev MemberId := Bytes

abbrev MemberSet := OrderedSet StrictWeakOrder.lexicographic

namespace MemberSet

def print (members : MemberSet) : Bytes := OrderedSet.print id members

end MemberSet

end GroupChat
