import GroupChat.Session.Exec

/-!
Whole sessions: commands from outside, one after the other, with all that can be told of each of them.
-/

namespace GroupChat

namespace Session

/-- A command from outside: what it came to, what was observed meanwhile, and the session after it. -/
structure Report where
  outcome : Outcome
  events : List Event
  session : Session

def performAll (limit : Nat) : List Command → Session → Option (List Report)
  | [], _ => some []
  | command :: commands, session => do
      let (outcome, events, next) ← perform limit command session
      let reports ← performAll limit commands next
      return ⟨outcome, events, next⟩ :: reports

end Session

end GroupChat
