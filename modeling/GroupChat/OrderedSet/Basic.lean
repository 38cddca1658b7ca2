import GroupChat.Order

/-!
Finite sets kept sorted under a strict weak order, with one element for each class of equivalent
values. Where two operands hold equivalent elements the result keeps that of the first one.
-/

namespace GroupChat

variable {α : Type}

/-- Inserts into an increasing list, unless an equivalent element is there already. -/
def StrictWeakOrder.insertSorted (order : StrictWeakOrder α) (item : α) : List α → List α
  | [] => [item]
  | head :: tail =>
      if order.lt item head then item :: head :: tail
      else if order.lt head item then head :: order.insertSorted item tail
      else head :: tail

theorem StrictWeakOrder.mem_insertSorted (order : StrictWeakOrder α) {item value : α}
    {items : List α} (hmem : value ∈ order.insertSorted item items) :
    value = item ∨ value ∈ items := by
  induction items with
  | nil => simpa [insertSorted] using hmem
  | cons head tail ih =>
      unfold insertSorted at hmem
      split at hmem
      · simpa using hmem
      · split at hmem
        · rcases List.mem_cons.1 hmem with rfl | hmem
          · simp
          · rcases ih hmem with h | h <;> simp [h]
        · exact .inr hmem

theorem StrictWeakOrder.pairwise_insertSorted (order : StrictWeakOrder α) (item : α)
    {items : List α} (hitems : items.Pairwise (order.lt · · = true)) :
    (order.insertSorted item items).Pairwise (order.lt · · = true) := by
  induction items with
  | nil => simp [insertSorted]
  | cons head tail ih =>
      have hparts := List.pairwise_cons.1 hitems
      unfold insertSorted
      split
      · rename_i hlt
        refine List.pairwise_cons.2 ⟨fun value hvalue => ?_, hitems⟩
        rcases List.mem_cons.1 hvalue with rfl | hvalue
        · exact hlt
        · exact order.lt_trans hlt (hparts.1 value hvalue)
      · split
        · rename_i hlt
          refine List.pairwise_cons.2 ⟨fun value hvalue => ?_, ih hparts.2⟩
          rcases order.mem_insertSorted hvalue with rfl | hvalue
          · exact hlt
          · exact hparts.1 value hvalue
        · exact hitems

structure OrderedSet (order : StrictWeakOrder α) where
  items : List α
  increasing : items.Pairwise (order.lt · · = true)

namespace OrderedSet

variable {order : StrictWeakOrder α}

@[ext]
theorem ext {first second : OrderedSet order} (hitems : first.items = second.items) :
    first = second := by
  cases first
  cases second
  simp_all

instance [DecidableEq α] : DecidableEq (OrderedSet order) := fun first second =>
  decidable_of_iff (first.items = second.items) ⟨ext, congrArg items⟩

def empty : OrderedSet order := ⟨[], List.Pairwise.nil⟩

instance : Inhabited (OrderedSet order) := ⟨empty⟩

def singleton (item : α) : OrderedSet order := ⟨[item], List.pairwise_singleton _ _⟩

def insert (set : OrderedSet order) (item : α) : OrderedSet order :=
  ⟨order.insertSorted item set.items, order.pairwise_insertSorted item set.increasing⟩

/-- Of equivalent items the first one is kept. -/
def ofList (items : List α) : OrderedSet order := items.foldl insert empty

def ofOption (items : Option (List α)) : OrderedSet order := ofList (items.getD [])

def size (set : OrderedSet order) : Nat := set.items.length

def isEmpty (set : OrderedSet order) : Bool := set.items.isEmpty

def contains (set : OrderedSet order) (value : α) : Bool :=
  set.items.any (order.equivalent · value)

instance : Membership α (OrderedSet order) := ⟨fun set value => set.contains value = true⟩

instance (value : α) (set : OrderedSet order) : Decidable (value ∈ set) :=
  inferInstanceAs (Decidable (set.contains value = true))

def filter (set : OrderedSet order) (keep : α → Bool) : OrderedSet order :=
  ⟨set.items.filter keep, set.increasing.filter _⟩

def union (first second : OrderedSet order) : OrderedSet order := second.items.foldl insert first

def inter (first second : OrderedSet order) : OrderedSet order := first.filter second.contains

def sdiff (first second : OrderedSet order) : OrderedSet order :=
  first.filter fun item => !second.contains item

/-- The same classes in the same order, whatever elements stand for them. -/
def equals (first second : OrderedSet order) : Bool :=
  first.items.length == second.items.length &&
    (first.items.zip second.items).all fun pair => order.equivalent pair.1 pair.2

def isDisjoint (first second : OrderedSet order) : Bool := (first.inter second).isEmpty

def isSubset (first second : OrderedSet order) : Bool := first.items.all second.contains

structure Change (order : StrictWeakOrder α) where
  added : OrderedSet order
  removed : OrderedSet order

def changeTo (older newer : OrderedSet order) : Change order :=
  { added := newer.sdiff older
    removed := older.sdiff newer }

inductive PatchError where
  | overlap
  deriving DecidableEq, Repr

def PatchError.message : PatchError → Bytes
  | .overlap => Bytes.ofString "Patch adds and removes the same element"

def patch (set added removed : OrderedSet order) : Except PatchError (OrderedSet order) :=
  if added.isDisjoint removed then .ok ((set.sdiff removed).union added) else .error .overlap

def applyChange (set : OrderedSet order) (change : Change order) :
    Except PatchError (OrderedSet order) :=
  set.patch change.added change.removed

/-- Takes over into the second child what leads from the parent to the first one. -/
def merge (parent child₀ child₁ : OrderedSet order) : Except PatchError (OrderedSet order) :=
  child₁.applyChange (parent.changeTo child₀)

def print (showItem : α → Bytes) (set : OrderedSet order) : Bytes :=
  Bytes.ofString "\x7b" ++ Bytes.joined (Bytes.ofString ", ") (set.items.map showItem) ++
    Bytes.ofString "\x7d"

end OrderedSet

end GroupChat
