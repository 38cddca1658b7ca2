import GroupChat.Member

/-!
Finite maps keyed by member ids, kept in the order of the ids. Main statements: looking up after each
operation, and two directories are equal if every key has the same value in both.
-/

namespace GroupChat

variable {β : Type}

structure Directory (β : Type) where
  entries : List (MemberId × β)
  increasing : entries.Pairwise fun first second => first.1 < second.1

namespace Directory

def setSorted (key : MemberId) (value : β) : List (MemberId × β) → List (MemberId × β)
  | [] => [(key, value)]
  | entry :: rest =>
      if key < entry.1 then (key, value) :: entry :: rest
      else if entry.1 < key then entry :: setSorted key value rest
      else (key, value) :: rest

theorem key_mem_setSorted {key : MemberId} {value : β} {entries : List (MemberId × β)}
    {entry : MemberId × β} (hmem : entry ∈ setSorted key value entries) :
    entry.1 = key ∨ entry ∈ entries := by
  induction entries with
  | nil => simp_all [setSorted]
  | cons head rest ih =>
      unfold setSorted at hmem
      split at hmem
      · rcases List.mem_cons.1 hmem with rfl | hmem
        · exact .inl rfl
        · exact .inr hmem
      · split at hmem
        · rcases List.mem_cons.1 hmem with rfl | hmem
          · simp
          · rcases ih hmem with h | h <;> simp [h]
        · rcases List.mem_cons.1 hmem with rfl | hmem
          · exact .inl rfl
          · simp [hmem]

theorem pairwise_setSorted (key : MemberId) (value : β) {entries : List (MemberId × β)}
    (hentries : entries.Pairwise fun first second => first.1 < second.1) :
    (setSorted key value entries).Pairwise fun first second => first.1 < second.1 := by
  induction entries with
  | nil => simp [setSorted]
  | cons head rest ih =>
      have hparts := List.pairwise_cons.1 hentries
      unfold setSorted
      split
      · rename_i hlt
        refine List.pairwise_cons.2 ⟨fun entry hentry => ?_, hentries⟩
        rcases List.mem_cons.1 hentry with rfl | hentry
        · exact hlt
        · exact List.lt_trans hlt (hparts.1 entry hentry)
      · split
        · rename_i hlt
          refine List.pairwise_cons.2 ⟨fun entry hentry => ?_, ih hparts.2⟩
          rcases key_mem_setSorted hentry with h | hentry
          · exact h ▸ hlt
          · exact hparts.1 entry hentry
        · rename_i hnot hnot'
          have heq : key = head.1 := List.le_antisymm (List.not_lt.1 hnot') (List.not_lt.1 hnot)
          exact List.pairwise_cons.2 ⟨fun entry hentry => heq ▸ hparts.1 entry hentry, hparts.2⟩

def empty : Directory β := ⟨[], List.Pairwise.nil⟩

instance : Inhabited (Directory β) := ⟨empty⟩

def find? (key : MemberId) : List (MemberId × β) → Option β
  | [] => none
  | entry :: rest => if key = entry.1 then some entry.2 else find? key rest

def get? (directory : Directory β) (key : MemberId) : Option β := find? key directory.entries

def set (directory : Directory β) (key : MemberId) (value : β) : Directory β :=
  ⟨setSorted key value directory.entries, pairwise_setSorted key value directory.increasing⟩

def erase (directory : Directory β) (key : MemberId) : Directory β :=
  ⟨directory.entries.filter (·.1 != key), directory.increasing.filter _⟩

def modify (directory : Directory β) (key : MemberId) (change : β → β) : Directory β :=
  match directory.get? key with
  | some value => directory.set key (change value)
  | none => directory

def map {γ : Type} (change : β → γ) (directory : Directory β) : Directory γ :=
  ⟨directory.entries.map fun entry => (entry.1, change entry.2),
    directory.increasing.map _ fun _ _ hlt => hlt⟩

/-- Goes through all entries and keeps the first one of those that are larger than all before them. An entry
of size zero is never kept. -/
def largest? (size : β → Nat) (directory : Directory β) : Option MemberId :=
  (directory.entries.foldl
    (fun best entry => if best.2 < size entry.2 then (some entry.1, size entry.2) else best)
    (none, 0)).1

theorem find?_setSorted (key : MemberId) (value : β) (entries : List (MemberId × β))
    (other : MemberId) :
    find? other (setSorted key value entries) =
      if other = key then some value else find? other entries := by
  induction entries with
  | nil => rfl
  | cons head rest ih =>
      unfold setSorted
      split
      · rfl
      · split
        · rename_i hlt
          by_cases hhead : other = head.1
          · have hne : ¬other = key := by
              rintro rfl
              exact List.lt_irrefl _ (hhead ▸ hlt)
            simp only [find?, if_pos hhead, if_neg hne]
          · simp only [find?, if_neg hhead, ih]
        · rename_i hnot hnot'
          have hkey : key = head.1 := List.le_antisymm (List.not_lt.1 hnot') (List.not_lt.1 hnot)
          subst hkey
          by_cases heq : other = head.1 <;> simp only [find?, heq, if_true, if_false]

@[simp]
theorem get?_empty (key : MemberId) : (empty : Directory β).get? key = none := rfl

@[simp]
theorem get?_set (directory : Directory β) (key : MemberId) (value : β) (other : MemberId) :
    (directory.set key value).get? other =
      if other = key then some value else directory.get? other :=
  find?_setSorted key value directory.entries other

theorem get?_modify (directory : Directory β) (key : MemberId) (change : β → β)
    (other : MemberId) :
    (directory.modify key change).get? other =
      if other = key then (directory.get? key).map change else directory.get? other := by
  unfold modify
  split
  · rename_i value hvalue
    simp [hvalue]
  · rename_i hnone
    by_cases heq : other = key <;> simp [heq, hnone]

theorem find?_filter_ne (key : MemberId) (entries : List (MemberId × β)) (other : MemberId) :
    find? other (entries.filter (·.1 != key)) =
      if other = key then none else find? other entries := by
  induction entries with
  | nil => simp [find?]
  | cons head rest ih =>
      by_cases hhead : head.1 = key
      · subst hhead
        by_cases hother : other = head.1 <;> simp_all [find?]
      · by_cases hother : other = head.1 <;> simp [find?, hhead, hother, ih]

theorem get?_erase (directory : Directory β) (key other : MemberId) :
    (directory.erase key).get? other = if other = key then none else directory.get? other :=
  find?_filter_ne key directory.entries other

theorem find?_map {γ : Type} (change : β → γ) (entries : List (MemberId × β)) (key : MemberId) :
    find? key (entries.map fun entry => (entry.1, change entry.2)) = (find? key entries).map change := by
  induction entries with
  | nil => rfl
  | cons head rest ih =>
      by_cases hhead : key = head.1
      · simp [find?, hhead]
      · simp only [List.map_cons, find?, if_neg hhead, ih]

theorem get?_map {γ : Type} (change : β → γ) (directory : Directory β) (key : MemberId) :
    (directory.map change).get? key = (directory.get? key).map change :=
  find?_map change directory.entries key

theorem find?_eq_none_of_lt {key : MemberId} {entries : List (MemberId × β)}
    (hlt : ∀ entry ∈ entries, key < entry.1) : find? key entries = none := by
  induction entries with
  | nil => rfl
  | cons head rest ih =>
      have hne : ¬key = head.1 := fun heq =>
        List.lt_irrefl _ (heq ▸ hlt head List.mem_cons_self)
      rw [find?, if_neg hne]
      exact ih fun entry hentry => hlt entry (List.mem_cons_of_mem _ hentry)

theorem find?_eq_some_iff {entries : List (MemberId × β)}
    (hentries : entries.Pairwise fun first second => first.1 < second.1) {key : MemberId} {value : β} :
    find? key entries = some value ↔ (key, value) ∈ entries := by
  induction entries with
  | nil => simp [find?]
  | cons head rest ih =>
      obtain ⟨hbelow, hrest⟩ := List.pairwise_cons.1 hentries
      rw [find?, List.mem_cons]
      by_cases heq : key = head.1
      · have hnot : (key, value) ∉ rest := fun hmem => List.lt_irrefl _ (heq ▸ hbelow _ hmem)
        rw [if_pos heq, or_iff_left hnot, Option.some.injEq, Prod.ext_iff, eq_comm]
        exact (and_iff_right heq).symm
      · have hne : (key, value) ≠ head := fun h => heq (congrArg Prod.fst h)
        rw [if_neg heq, ih hrest, or_iff_right hne]

/-- The least key of one list is not below that of another list with the same values. -/
theorem not_head_lt {head head' : MemberId × β} {tail tail' : List (MemberId × β)}
    (hentries' : (head' :: tail').Pairwise fun first second => first.1 < second.1)
    (hsame : find? head.1 (head :: tail) = find? head.1 (head' :: tail')) : ¬head.1 < head'.1 := by
  intro hlt
  rw [find?, if_pos rfl, find?_eq_none_of_lt] at hsame
  · cases hsame
  · intro entry hentry
    rcases List.mem_cons.1 hentry with rfl | hentry
    · exact hlt
    · exact List.lt_trans hlt ((List.pairwise_cons.1 hentries').1 entry hentry)

theorem eq_of_find? {entries entries' : List (MemberId × β)}
    (hentries : entries.Pairwise fun first second => first.1 < second.1)
    (hentries' : entries'.Pairwise fun first second => first.1 < second.1)
    (hsame : ∀ key, find? key entries = find? key entries') : entries = entries' := by
  induction entries generalizing entries' with
  | nil =>
      cases entries' with
      | nil => rfl
      | cons head' tail' => simpa [find?] using hsame head'.1
  | cons head tail ih =>
      cases entries' with
      | nil => simpa [find?] using hsame head.1
      | cons head' tail' =>
          have hkey : head.1 = head'.1 :=
            List.le_antisymm
              (List.not_lt.1 (not_head_lt hentries (hsame head'.1).symm))
              (List.not_lt.1 (not_head_lt hentries' (hsame head.1)))
          have hvalue : head.2 = head'.2 := by
            simpa [find?, hkey] using hsame head.1
          have hhead : head = head' := Prod.ext hkey hvalue
          subst hhead
          obtain ⟨hbelow, htail⟩ := List.pairwise_cons.1 hentries
          obtain ⟨hbelow', htail'⟩ := List.pairwise_cons.1 hentries'
          refine congrArg (head :: ·) (ih htail htail' fun key => ?_)
          by_cases heq : key = head.1
          · rw [heq, find?_eq_none_of_lt hbelow, find?_eq_none_of_lt hbelow']
          · have h := hsame key
            rwa [find?, find?, if_neg heq, if_neg heq] at h

theorem get?_eq_some_iff {directory : Directory β} {key : MemberId} {value : β} :
    directory.get? key = some value ↔ (key, value) ∈ directory.entries :=
  find?_eq_some_iff directory.increasing

theorem eq_of_get? {first second : Directory β}
    (hsame : ∀ key, first.get? key = second.get? key) : first = second := by
  obtain ⟨entries, hentries⟩ := first
  obtain ⟨entries', hentries'⟩ := second
  have hlist := eq_of_find? hentries hentries' hsame
  subst hlist
  rfl

end Directory

end GroupChat
