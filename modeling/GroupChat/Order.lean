import GroupChat.Bytes

/-!
Strict weak orders: the comparisons that an ordered set may be kept under. Two values are equivalent
if neither comes before the other.
-/

namespace GroupChat

structure StrictWeakOrder (α : Type) where
  lt : α → α → Bool
  asymm : ∀ {first second}, lt first second = true → lt second first = false
  cotrans : ∀ {first last} middle, lt first last = true →
    lt first middle = true ∨ lt middle last = true

namespace StrictWeakOrder

variable {α β : Type} (order : StrictWeakOrder α)

def equivalent (first second : α) : Bool := !order.lt first second && !order.lt second first

theorem lt_irrefl (value : α) : order.lt value value = false := by
  cases hlt : order.lt value value with
  | false => rfl
  | true => simpa [hlt] using order.asymm hlt

theorem lt_trans {first middle last : α} (hfirst : order.lt first middle = true)
    (hlast : order.lt middle last = true) : order.lt first last = true := by
  rcases order.cotrans last hfirst with h | h
  · exact h
  · simp [order.asymm hlast] at h

theorem equivalent_iff {first second : α} :
    order.equivalent first second = true ↔
      order.lt first second = false ∧ order.lt second first = false := by
  simp [equivalent]

@[simp]
theorem equivalent_refl (value : α) : order.equivalent value value = true := by
  simp [equivalent, order.lt_irrefl]

theorem equivalent_comm (first second : α) :
    order.equivalent first second = order.equivalent second first := by
  simp [equivalent, Bool.and_comm]

theorem lt_of_lt_of_equivalent {first middle last : α} (hlt : order.lt first middle = true)
    (heq : order.equivalent middle last = true) : order.lt first last = true := by
  rcases order.cotrans last hlt with h | h
  · exact h
  · simp [(order.equivalent_iff.1 heq).2] at h

theorem lt_of_equivalent_of_lt {first middle last : α}
    (heq : order.equivalent first middle = true) (hlt : order.lt middle last = true) :
    order.lt first last = true := by
  rcases order.cotrans first hlt with h | h
  · simp [(order.equivalent_iff.1 heq).2] at h
  · exact h

theorem equivalent_trans {first middle last : α} (hfirst : order.equivalent first middle = true)
    (hlast : order.equivalent middle last = true) : order.equivalent first last = true := by
  have hfirst' := (order.equivalent_comm first middle).symm.trans hfirst
  refine order.equivalent_iff.2
    ⟨Bool.eq_false_iff.2 fun hlt => ?_, Bool.eq_false_iff.2 fun hlt => ?_⟩
  · have h := order.lt_of_equivalent_of_lt hfirst' hlt
    simp [(order.equivalent_iff.1 hlast).1] at h
  · have h := order.lt_of_equivalent_of_lt hlast hlt
    simp [(order.equivalent_iff.1 hfirst).2] at h

def reversed : StrictWeakOrder α where
  lt first second := order.lt second first
  asymm h := order.asymm h
  cotrans middle h := (order.cotrans middle h).symm

def comap (key : β → α) : StrictWeakOrder β where
  lt first second := order.lt (key first) (key second)
  asymm h := order.asymm h
  cotrans middle h := order.cotrans (key middle) h

def integers : StrictWeakOrder Int where
  lt first second := decide (first < second)
  asymm := by intros; simp_all; omega
  cotrans := by intros; simp_all; omega

/-- Integers by distance from zero. -/
def magnitudes : StrictWeakOrder Int := integers.comap fun value => (value.natAbs : Int)

/-- Byte strings as in a dictionary, by unsigned bytes. -/
def lexicographic : StrictWeakOrder Bytes where
  lt first second := decide (first < second)
  asymm {first second} h := by
    simpa using List.lt_asymm (of_decide_eq_true h)
  cotrans {first last} middle h := by
    have hlt : first < last := of_decide_eq_true h
    by_cases hmiddle : first < middle
    · exact .inl (decide_eq_true hmiddle)
    · exact .inr (decide_eq_true (List.lt_of_le_of_lt (List.not_lt.1 hmiddle) hlt))

/-- The letters A to Z in lower case, all other bytes as they are. -/
def foldCase (byte : UInt8) : UInt8 := if 65 ≤ byte ∧ byte ≤ 90 then byte + 32 else byte

/-- Byte strings as in a dictionary, without regard to the case of A to Z. -/
def caseless : StrictWeakOrder Bytes := lexicographic.comap (List.map foldCase)

theorem lexicographic_equivalent_iff {first second : Bytes} :
    lexicographic.equivalent first second = true ↔ first = second := by
  constructor
  · intro h
    have hboth := (equivalent_iff _).1 h
    simp only [lexicographic, decide_eq_false_iff_not] at hboth
    exact List.le_antisymm (List.not_lt.1 hboth.2) (List.not_lt.1 hboth.1)
  · rintro rfl
    exact equivalent_refl _ _

end StrictWeakOrder

end GroupChat
