import GroupChat.Bytes

/-!
The subscriptions of a channel, in the order in which they were made. Each has a key of its own that is
never used again.
-/

namespace GroupChat

structure Subscriptions (σ : Type) where
  nextKey : Nat
  active : List (Nat × σ)
  increasing : active.Pairwise fun first second => first.1 < second.1
  below : ∀ entry ∈ active, entry.1 < nextKey

namespace Subscriptions

variable {σ : Type}

def empty : Subscriptions σ := ⟨0, [], List.Pairwise.nil, by simp⟩

def isActive (subscriptions : Subscriptions σ) (key : Nat) : Bool :=
  subscriptions.active.any (·.1 == key)

/-- A new subscription has the key that was next before it. -/
def add (subscriptions : Subscriptions σ) (subscriber : σ) : Subscriptions σ where
  nextKey := subscriptions.nextKey + 1
  active := subscriptions.active ++ [(subscriptions.nextKey, subscriber)]
  increasing := List.pairwise_append.2
    ⟨subscriptions.increasing, List.pairwise_singleton _ _, fun first hfirst second hsecond => by
      have := subscriptions.below first hfirst
      simp_all⟩
  below := fun entry hentry => by
    rcases List.mem_append.1 hentry with h | h
    · exact Nat.lt_succ_of_lt (subscriptions.below entry h)
    · simp_all

def cancel (subscriptions : Subscriptions σ) (key : Nat) : Subscriptions σ where
  nextKey := subscriptions.nextKey
  active := subscriptions.active.filter (·.1 != key)
  increasing := subscriptions.increasing.filter _
  below := fun entry hentry => subscriptions.below entry (List.mem_filter.1 hentry).1

theorem isActive_nextKey (subscriptions : Subscriptions σ) :
    subscriptions.isActive subscriptions.nextKey = false := by
  refine Bool.eq_false_iff.2 fun h => ?_
  obtain ⟨entry, hentry, hkey⟩ := List.any_eq_true.1 h
  have := subscriptions.below entry hentry
  simp_all

theorem isActive_add (subscriptions : Subscriptions σ) (subscriber : σ) (key : Nat) :
    (subscriptions.add subscriber).isActive key =
      (subscriptions.isActive key || key == subscriptions.nextKey) := by
  simp [isActive, add, Bool.beq_comm]

theorem isActive_cancel (subscriptions : Subscriptions σ) (key other : Nat) :
    (subscriptions.cancel key).isActive other = (subscriptions.isActive other && other != key) := by
  rw [Bool.eq_iff_iff]
  simp only [isActive, cancel, List.any_eq_true, List.mem_filter, Bool.and_eq_true, beq_iff_eq,
    bne_iff_ne, ne_eq]
  constructor
  · rintro ⟨entry, ⟨hmem, hne⟩, rfl⟩
    exact ⟨⟨entry, hmem, rfl⟩, hne⟩
  · rintro ⟨⟨entry, hmem, rfl⟩, hne⟩
    exact ⟨entry, ⟨hmem, hne⟩, rfl⟩

end Subscriptions

end GroupChat
