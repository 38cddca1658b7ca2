import GroupChat.Greet.Decode

/-!
Summaries of greet and data messages. Only the routing fields are looked at; no signature is checked.
-/

namespace GroupChat.Greet

structure GreetSummary where
  kind : Kind
  agreement : Agreement
  flow : Flow
  fromInitiator : Bool
  negotiation : Bytes
  members : List MemberId
  nonceCount : Nat
  pubKeyCount : Nat
  intKeyCount : Nat
  deriving DecidableEq, Repr

structure Summary where
  category : Category
  version : Nat
  source : MemberId
  dest : MemberId
  origin : Origin
  greet : Option GreetSummary
  sessionHint : Option Bytes
  deriving DecidableEq, Repr

/-- What is noted down while the records of a message are gone through. -/
structure Notes where
  version : Nat := 0
  /-- The code of a category, which need not have a name. -/
  category : Option Nat := none
  kind : Option Kind := none
  source : MemberId := []
  dest : MemberId := []
  members : List MemberId := []
  nonceCount : Nat := 0
  pubKeyCount : Nat := 0
  intKeyCount : Nat := 0
  sessionHint : Option Bytes := none
  deriving DecidableEq, Repr

namespace Notes

def read (notes : Notes) (record : Record) : Except DecodeError Notes :=
  match Field.ofTag? record.tag with
  | some .version => do
      let version ← fixedWidth 1 record
      return { notes with version }
  | some .category => do
      let category ← fixedWidth 1 record
      return { notes with category := some category }
  | some .kind => do
      let kind ← fixedWidth 2 record
      return { notes with kind := some (.ofNat kind) }
  | some .source => .ok { notes with source := record.value }
  | some .dest => .ok { notes with dest := record.value }
  | some .member => .ok { notes with members := notes.members ++ [record.value] }
  | some .intKey => .ok { notes with intKeyCount := notes.intKeyCount + 1 }
  | some .nonce => .ok { notes with nonceCount := notes.nonceCount + 1 }
  | some .pubKey => .ok { notes with pubKeyCount := notes.pubKeyCount + 1 }
  | some .sessionHint => .ok { notes with sessionHint := some record.value }
  | _ => .ok notes

def summary (notes : Notes) (category : Category) (greet : Option GreetSummary) : Summary where
  category := category
  version := notes.version
  source := notes.source
  dest := notes.dest
  origin := Origin.classify notes.source notes.members
  greet := greet
  sessionHint := notes.sessionHint

def greetSummary (notes : Notes) (kind : Kind) : GreetSummary where
  kind := kind
  agreement := kind.agreement
  flow := kind.flow
  fromInitiator := kind.isInitiator
  negotiation := kind.negotiation
  members := notes.members
  nonceCount := notes.nonceCount
  pubKeyCount := notes.pubKeyCount
  intKeyCount := notes.intKeyCount

/-- Only greet and data messages have a summary. -/
def conclude (notes : Notes) : Except FormatError Summary :=
  if notes.category = some Category.greet.code then
    match notes.kind with
    | none => .error .missingKind
    | some kind => .ok (notes.summary .greet (some (notes.greetSummary kind)))
  else if notes.category = some Category.data.code then .ok (notes.summary .data none)
  else .error .unknownContent

end Notes

namespace Summary

def ofRecords (records : List Record) : Except DecodeError Summary := do
  let notes ← records.foldlM Notes.read {}
  notes.conclude.mapError .format

/-- All records are read before the first of them is looked at. -/
def ofContent (data : Bytes) : Except DecodeError Summary := do
  ofRecords (← (Reader.readAll data).mapError .read)

end Summary

end GroupChat.Greet
