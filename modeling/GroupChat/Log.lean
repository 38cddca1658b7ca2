import GroupChat.Bytes

/-!
Log messages. Operations give their messages as data, and a logger decides which of them are
delivered: a sink has to be installed, and the level may not be less severe than the threshold. Key
material, the last level, is never delivered.
-/

namespace GroupChat.Log

inductive Level where
  | fatal
  | error
  | warn
  | info
  | debug
  | crypto
  deriving DecidableEq, Repr

namespace Level

/-- The least number is the most severe level. -/
def rank : Level → Nat
  | .fatal => 0
  | .error => 1
  | .warn => 2
  | .info => 3
  | .debug => 4
  | .crypto => 5

def all : List Level := [.fatal, .error, .warn, .info, .debug, .crypto]

def name : Level → Bytes
  | .fatal => Bytes.ofString "fatal"
  | .error => Bytes.ofString "error"
  | .warn => Bytes.ofString "warn"
  | .info => Bytes.ofString "info"
  | .debug => Bytes.ofString "debug"
  | .crypto => Bytes.ofString "crypto"

def ofName? (text : Bytes) : Option Level := all.find? (·.name == text)

end Level

structure Line where
  level : Level
  component : Bytes
  text : Bytes
  deriving DecidableEq, Repr

inductive Sink where
  | absent
  | silent
  | recording
  deriving DecidableEq, Repr

structure Logger where
  sink : Sink := .recording
  threshold : Level := .debug
  deriving DecidableEq, Repr

namespace Logger

/-- Whether the text of a message at this level is composed at all. -/
def enabled (logger : Logger) (level : Level) : Bool :=
  level != .crypto && logger.sink != .absent && decide (level.rank ≤ logger.threshold.rank)

def delivers (logger : Logger) (level : Level) : Bool :=
  logger.enabled level && logger.sink == .recording

def delivered (logger : Logger) (lines : List Line) : List Line :=
  lines.filter fun line => logger.delivers line.level

/-- Composes a message only where it is enabled, so that only then composing it may fail. -/
def compose {ε : Type} (logger : Logger) (level : Level) (component : Bytes)
    (text : Unit → Except ε Bytes) : Except ε (List Line) :=
  if logger.enabled level then
    return logger.delivered [⟨level, component, ← text ()⟩]
  else return []

end Logger

/-- What goes on under a logger. It may fail, and what was delivered until then stays delivered. -/
abbrev Logged (ε : Type) := ReaderT Logger (ExceptT ε (StateM (List Line)))

namespace Logged

variable {ε ε' α : Type}

/-- What has no messages of its own. -/
def of (result : Except ε α) : Logged ε α := fun _ => ExceptT.mk (pure result)

def mapError (change : ε → ε') (operation : Logged ε α) : Logged ε' α :=
  fun logger => (operation.run logger).adapt change

/-- The result of an operation, and what was delivered meanwhile. -/
def under (operation : Logged ε α) (logger : Logger) : Except ε α × List Line :=
  (operation.run logger).run.run []

end Logged

/-- Delivers a message, which is composed only where it is enabled. -/
def tell {ε : Type} (line : Line) : Logged ε Unit := do
  let logger ← read
  let lines ← Logged.of (logger.compose line.level line.component fun _ => .ok line.text)
  modify (· ++ lines)

end GroupChat.Log
