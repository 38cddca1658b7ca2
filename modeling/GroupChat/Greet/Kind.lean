import GroupChat.Bytes.Hex
import GroupChat.Record.Integer

/-!
The kind of a greet message: sixteen bits that say what the message carries, in which direction it
goes and which operation it belongs to.
-/

namespace GroupChat.Greet

inductive Agreement where
  | initial
  | auxiliary
  deriving DecidableEq, Repr

inductive Flow where
  | upflow
  | downflow
  deriving DecidableEq, Repr

inductive Operation where
  | start
  | inclusion
  | exclusion
  | refresh
  | quit
  deriving DecidableEq, Repr

namespace Operation

def code : Operation → Nat
  | .start => 1
  | .inclusion => 2
  | .exclusion => 3
  | .refresh => 4
  | .quit => 5

def all : List Operation := [.start, .inclusion, .exclusion, .refresh, .quit]

def ofCode? (code : Nat) : Option Operation := all.find? (·.code == code)

def name : Operation → Bytes
  | .start => Bytes.ofString "START"
  | .inclusion => Bytes.ofString "INCLUDE"
  | .exclusion => Bytes.ofString "EXCLUDE"
  | .refresh => Bytes.ofString "REFRESH"
  | .quit => Bytes.ofString "QUIT"

def nameOfCode (code : Nat) : Bytes :=
  match ofCode? code with
  | some operation => operation.name
  | none => Bytes.ofString "UNKNOWN"

end Operation

structure Kind where
  bits : UInt16
  deriving DecidableEq, Repr

namespace Kind

def ofNat (number : Nat) : Kind := ⟨UInt16.ofNat number⟩

def isAuxiliary (kind : Kind) : Bool := kind.bits &&& 0x0001 != 0

def isDownflow (kind : Kind) : Bool := kind.bits &&& 0x0002 != 0

/-- Whether the message takes part in the group key agreement. -/
def hasKeyAgreement (kind : Kind) : Bool := kind.bits &&& 0x0004 != 0

/-- Whether the message takes part in the exchange of signature keys. -/
def hasSignatureExchange (kind : Kind) : Bool := kind.bits &&& 0x0008 != 0

def isInitiator (kind : Kind) : Bool := kind.bits &&& 0x0080 != 0

def isRecovery (kind : Kind) : Bool := kind.bits &&& 0x0100 != 0

def operationCode (kind : Kind) : Nat := ((kind.bits &&& 0x0070) >>> 4).toNat

def withRecovery (kind : Kind) : Kind := ⟨kind.bits ||| 0x0100⟩

def withoutRecovery (kind : Kind) : Kind := ⟨kind.bits &&& 0xfeff⟩

def agreement (kind : Kind) : Agreement := if kind.isAuxiliary then .auxiliary else .initial

def flow (kind : Kind) : Flow := if kind.isDownflow then .downflow else .upflow

/-- The kinds that the key agreement uses, each of which may also be a recovery. -/
def named : List (Kind × String) :=
  [(⟨0x009c⟩, "INIT_INITIATOR_UP"),
    (⟨0x001c⟩, "INIT_PARTICIPANT_UP"),
    (⟨0x001e⟩, "INIT_PARTICIPANT_DOWN"),
    (⟨0x001a⟩, "INIT_PARTICIPANT_CONFIRM_DOWN"),
    (⟨0x00ad⟩, "INCLUDE_AUX_INITIATOR_UP"),
    (⟨0x002d⟩, "INCLUDE_AUX_PARTICIPANT_UP"),
    (⟨0x002f⟩, "INCLUDE_AUX_PARTICIPANT_DOWN"),
    (⟨0x002b⟩, "INCLUDE_AUX_PARTICIPANT_CONFIRM_DOWN"),
    (⟨0x00bf⟩, "EXCLUDE_AUX_INITIATOR_DOWN"),
    (⟨0x003b⟩, "EXCLUDE_AUX_PARTICIPANT_CONFIRM_DOWN"),
    (⟨0x00c7⟩, "REFRESH_AUX_INITIATOR_DOWN"),
    (⟨0x0047⟩, "REFRESH_AUX_PARTICIPANT_DOWN"),
    (⟨0x00d3⟩, "QUIT_DOWN")]

/-- Kinds without a name are printed as four hexadecimal digits. -/
def name (kind : Kind) : Bytes :=
  match named.lookup kind.withoutRecovery with
  | some text => Bytes.ofString (if kind.isRecovery then "RECOVER_" ++ text else text)
  | none => Bytes.ofString "0x" ++ Hex.encode (Integer.bigEndian 2 kind.bits.toNat)

def negotiation (kind : Kind) : Bytes :=
  Operation.nameOfCode kind.operationCode ++
    (if kind.isRecovery then Bytes.ofString " (recovery)" else [])

end Kind

end GroupChat.Greet
