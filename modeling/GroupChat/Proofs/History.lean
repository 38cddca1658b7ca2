import GroupChat.Proofs.Delivery
import Mathlib.Data.List.Destutter

/-!
# Histories of the membership

Main statement: whatever a member sees of the membership, it sees in the order in which the server went
through it. From its entry to its departure nothing is skipped and nothing invented, apart from the
moment at which it sees itself alone.
-/

namespace GroupChat

/-- What the owner sees after each control notice. -/
def Standing.changes (entries : List (Notice × Standing)) : List Standing :=
  entries.filterMap fun entry => entry.1.control?.map fun _ => entry.2

namespace Standing

theorem changes_append (first second : List (Notice × Standing)) :
    changes (first ++ second) = changes first ++ changes second :=
  List.filterMap_append

theorem changes_flatMap {α : Type} (entries : α → List (Notice × Standing)) (items : List α) :
    changes (items.flatMap entries) = items.flatMap fun item => changes (entries item) :=
  List.filterMap_flatMap

end Standing

namespace MemberSet

/-- What comes into sight when one membership takes the place of another. -/
def arrivals (older newer : MemberSet) : List Standing :=
  if older = newer then [] else [some newer]

/-- What a member gets to see of a change. -/
def passage (older newer : MemberSet) (id : MemberId) : List Standing :=
  if id ∈ newer then
    if id ∈ older then arrivals older newer
    else some (OrderedSet.singleton id) :: arrivals (OrderedSet.singleton id) newer
  else if id ∈ older then [none]
  else []

/-- What a member gets to see of a list of memberships that follow an older one. -/
def itinerary (id : MemberId) (older : MemberSet) : List MemberSet → List Standing
  | [] => []
  | newer :: later => older.passage newer id ++ itinerary id newer later

/-- What a member sees from its entry on while it stays: itself, and then all that is there. -/
def sojourn (id : MemberId) : List MemberSet → List Standing
  | [] => []
  | first :: later =>
      some (OrderedSet.singleton id) ::
        (if first = OrderedSet.singleton id then later else first :: later).map some

/-- A part of a history during which a member belongs to the group, from its entry until it leaves
or the history ends. -/
structure Stint (id : MemberId) (before during after : List MemberSet) : Prop where
  nonempty : during ≠ []
  inside : ∀ members ∈ during, id ∈ members
  entered : ∀ members ∈ before.getLast?, id ∉ members
  left : ∀ members ∈ after.head?, id ∉ members

/-- The memberships that two members both belong to. -/
def shared (first second : MemberId) (memberships : List MemberSet) : List Standing :=
  (memberships.filter fun members => decide (first ∈ members ∧ second ∈ members)).map some

variable {older newer : MemberSet} {id first second : MemberId} {memberships : List MemberSet}

@[simp]
theorem arrivals_self (members : MemberSet) : arrivals members members = [] := by
  simp [arrivals]

@[simp]
theorem passage_self (members : MemberSet) (id : MemberId) : passage members members id = [] := by
  by_cases hmem : id ∈ members <;> simp [passage, hmem]

theorem itinerary_append (id : MemberId) (older : MemberSet) (before after : List MemberSet) :
    itinerary id older (before ++ after) =
      itinerary id older before ++ itinerary id (before.getLastD older) after := by
  induction before generalizing older with
  | nil => rfl
  | cons newer later ih =>
      rw [List.cons_append, itinerary, itinerary, ih newer, List.append_assoc, List.getLastD_cons]

theorem itinerary_destutter' (id : MemberId) (older newer : MemberSet)
    (later : List MemberSet) :
    itinerary id older (later.destutter' (· ≠ ·) newer) = itinerary id older (newer :: later) := by
  induction later generalizing older newer with
  | nil => rfl
  | cons next later ih =>
      by_cases heq : newer = next
      · subst heq
        rw [List.destutter'_cons_neg _ (not_not.2 rfl), ih]
        simp [itinerary]
      · rw [List.destutter'_cons_pos _ heq, itinerary, ih]
        rfl

/-- Nobody sees anything of a membership that only repeats the one before. -/
theorem itinerary_destutter (id : MemberId) (older : MemberSet) (memberships : List MemberSet) :
    itinerary id older (memberships.destutter (· ≠ ·)) = itinerary id older memberships := by
  cases memberships with
  | nil => rfl
  | cons newer later => exact itinerary_destutter' id older newer later

theorem itinerary_inside (hinside : ∀ members ∈ older :: memberships, id ∈ members)
    (hchain : (older :: memberships).IsChain (· ≠ ·)) :
    itinerary id older memberships = memberships.map some := by
  induction memberships generalizing older with
  | nil => rfl
  | cons newer later ih =>
      have holder : id ∈ older := hinside older List.mem_cons_self
      have hlater : ∀ members ∈ newer :: later, id ∈ members :=
        fun members hmem => hinside members (List.mem_cons_of_mem _ hmem)
      have hnewer : id ∈ newer := hlater newer List.mem_cons_self
      rw [List.isChain_cons_cons] at hchain
      rw [itinerary, ih hlater hchain.2, passage, if_pos hnewer, if_pos holder, arrivals,
        if_neg hchain.1]
      rfl

theorem itinerary_during (holder : id ∉ older) (hinside : ∀ members ∈ memberships, id ∈ members)
    (hchain : memberships.IsChain (· ≠ ·)) :
    itinerary id older memberships = sojourn id memberships := by
  cases memberships with
  | nil => rfl
  | cons newer later =>
      have hnewer : id ∈ newer := hinside newer List.mem_cons_self
      rw [itinerary, itinerary_inside hinside hchain, passage, if_pos hnewer, if_neg holder,
        sojourn, arrivals]
      by_cases halone : newer = OrderedSet.singleton id
      · simp [halone]
      · simp [halone, Ne.symm halone]

theorem itinerary_after (holder : id ∈ older)
    (hleft : ∀ members ∈ memberships.head?, id ∉ members) :
    itinerary id older memberships =
      (if memberships = [] then [] else [none]) ++
        itinerary id OrderedSet.empty memberships := by
  cases memberships with
  | nil => rfl
  | cons newer later =>
      have hnewer : id ∉ newer := hleft newer rfl
      simp [itinerary, passage, hnewer, holder]

/-- A stint is seen as a sojourn, which ends with the departure if there is one. -/
theorem Stint.itinerary_eq {before during after : List MemberSet}
    (hstint : Stint id before during after)
    (hchain : (before ++ during ++ after).IsChain (· ≠ ·)) :
    itinerary id OrderedSet.empty (before ++ during ++ after) =
      itinerary id OrderedSet.empty before ++ sojourn id during ++
        (if after = [] then [] else [none]) ++ itinerary id OrderedSet.empty after := by
  -- The stint starts from outside and the rest of the history starts from its last membership.
  have hbefore : id ∉ before.getLastD OrderedSet.empty := by
    cases hlast : before.getLast? with
    | none => simp [List.getLastD_eq_getLast?, hlast]
    | some members =>
        have hleft := hstint.entered members hlast
        simpa [List.getLastD_eq_getLast?, hlast] using hleft
  have hduring : id ∈ (before ++ during).getLastD OrderedSet.empty := by
    have hlast := hstint.inside _ (List.getLast_mem hstint.nonempty)
    simpa [List.getLastD_eq_getLast?, List.getLast?_append,
      List.getLast?_eq_some_getLast hstint.nonempty] using hlast
  have hchainDuring : during.IsChain (· ≠ ·) :=
    (List.IsChain.left_of_append hchain).right_of_append
  rw [itinerary_append, itinerary_append, itinerary_during hbefore hstint.inside hchainDuring,
    itinerary_after hduring hstint.left, List.append_assoc _ _ (itinerary _ _ after)]

/-- Of a change, the one thing that can show a member together with another one is the newer
membership. -/
theorem filter_includes_passage (hmember : first ≠ second) (hne : first ∈ newer → older ≠ newer) :
    (older.passage newer first).filter (·.includes second) = shared first second [newer] := by
  have halone : Standing.includes (some (OrderedSet.singleton first)) second = false := by
    simp [Standing.includes, Ne.symm hmember]
  by_cases hfirst : first ∈ newer
  · by_cases holder : first ∈ older
    · by_cases hsecond : second ∈ newer <;>
        simp [passage, arrivals, shared, Standing.includes, hfirst, holder, hne hfirst, hsecond]
    -- Whoever enters sees itself alone first, which does not show anybody else.
    · by_cases hsingle : OrderedSet.singleton first = newer
      · subst hsingle
        simp [passage, shared, holder, halone, Ne.symm hmember]
      · by_cases hsecond : second ∈ newer <;>
          simp [passage, arrivals, shared, Standing.includes, hfirst, holder, hsingle, hsecond,
            Ne.symm hmember]
  · by_cases holder : first ∈ older <;>
      simp [passage, shared, Standing.includes, hfirst, holder]

theorem filter_includes_itinerary (hmember : first ≠ second)
    (hhead : ∀ newer ∈ memberships.head?, first ∈ newer → older ≠ newer)
    (hchain : memberships.IsChain (· ≠ ·)) :
    (itinerary first older memberships).filter (·.includes second) =
      shared first second memberships := by
  induction memberships generalizing older with
  | nil => rfl
  | cons newer later ih =>
      rw [List.isChain_cons] at hchain
      have hlater := ih (fun next hnext _ => hchain.1 next hnext) hchain.2
      rw [itinerary, List.filter_append, hlater, filter_includes_passage hmember (hhead newer rfl)]
      simp only [shared, ← List.map_append, ← List.filter_append, List.singleton_append]

theorem shared_comm (first second : MemberId) (memberships : List MemberSet) :
    shared first second memberships = shared second first memberships := by
  simp only [shared, and_comm]

theorem changes_forecast_updates (hnewer : id ∈ newer) :
    Standing.changes (Standing.forecast id (some older) (updates older newer)) =
      arrivals older newer := by
  rw [forecast_updates hnewer]
  unfold updates arrivals
  split
  · rfl
  · rfl

theorem changes_forecast_announcements (older newer : MemberSet) (id : MemberId) :
    Standing.changes
        (Standing.forecast id (older.seenBy id) (older.announcements newer id)) =
      older.passage newer id := by
  unfold announcements passage
  by_cases hnewer : id ∈ newer <;> by_cases holder : id ∈ older
  · rw [if_pos hnewer, if_pos hnewer, if_pos holder, if_pos holder, seenBy_of_mem holder,
      changes_forecast_updates hnewer]
  · rw [if_pos hnewer, if_pos hnewer, if_neg holder, if_neg holder, seenBy_of_not_mem holder,
      ← changes_forecast_updates hnewer]
    rfl
  · rw [if_neg hnewer, if_neg hnewer, if_pos holder, if_pos holder, seenBy_of_mem holder]
    rfl
  · rw [if_neg hnewer, if_neg hnewer, if_neg holder, if_neg holder]
    rfl

end MemberSet

/-- What a member gets to see through its share of a packet is the change that the packet makes. -/
theorem Packet.changes_views (packet : Packet) (members : MemberSet) (id : MemberId) :
    Standing.changes (packet.views members id) =
      members.passage (packet.membersAfter members) id := by
  obtain ⟨sender, action⟩ := packet
  cases action with
  | raw payload recipients =>
      rw [Packet.membersAfter, MemberSet.passage_self]
      simp only [views, share]
      split
      · rfl
      · rfl
  | control change => exact MemberSet.changes_forecast_announcements members _ id

namespace Server

open Standing (changes)

/-- The successive memberships that a run goes through. -/
def memberships (server : Server) (moves : List Move) : List MemberSet :=
  ((server.states moves).map Server.members).destutter (· ≠ ·)

variable {server next : Server} {occurrence : Option Occurrence}

theorem Change.passage (hchange : Change server next occurrence) (id : MemberId) :
    server.members.passage next.members id =
      (settlements occurrence.toList).flatMap fun entry =>
        entry.1.passage (entry.2.membersAfter entry.1) id := by
  cases hchange with
  | quiet hmembers hqueue hstanding => simp [hmembers, settlements]
  | submitted packet hmembers hqueue hstanding =>
      simp [hmembers, settlements, Occurrence.settlement?]
  | processed packet hmembers hqueue hstanding =>
      simp [hmembers, settlements, Occurrence.settlement?]
  | delivered target notice hmembers hqueue hstanding =>
      simp [hmembers, settlements, Occurrence.settlement?]

theorem itinerary_states (hconsistent : server.Consistent) (moves : List Move) (id : MemberId)
    (older : MemberSet) :
    MemberSet.itinerary id older ((server.states moves).map Server.members) =
      older.passage server.members id ++
        (settlements (server.record moves)).flatMap fun entry =>
          entry.1.passage (entry.2.membersAfter entry.1) id := by
  induction moves generalizing server older with
  | nil => rfl
  | cons move rest ih =>
      have hpassage := (step_change hconsistent.wired move).passage id
      rw [states, List.map_cons, MemberSet.itinerary, ih (hconsistent.step move), hpassage, record,
        settlements_append, List.flatMap_append]

/-- What a member gets to see, sooner or later, is the history of the membership. -/
theorem changes_append_forecast (moves : List Move) (id : MemberId) :
    changes (deliveries id (record {} moves)) ++ changes ((run {} moves).forecast id) =
      MemberSet.itinerary id OrderedSet.empty (memberships {} moves) := by
  have hhistory := congrArg changes (history_of_run moves id)
  have hitinerary := itinerary_states consistent_empty moves id OrderedSet.empty
  rw [Standing.changes_append, Standing.changes_flatMap] at hhistory
  simp only [Packet.changes_views] at hhistory
  rw [hhistory, memberships, MemberSet.itinerary_destutter, hitinerary]
  exact (List.nil_append _).symm

theorem Change.changes_deliveries (hchange : Change server next occurrence) (id : MemberId)
    (hsettled : Standing.after id (server.queue id) (server.standing id) =
      .ok (server.members.seenBy id)) :
    (server.standing id = next.standing id ∧ changes (deliveries id occurrence.toList) = []) ∨
      (server.standing id ≠ next.standing id ∧
        changes (deliveries id occurrence.toList) = [next.standing id]) := by
  cases hchange with
  | quiet hmembers hqueue hstanding => exact Or.inl ⟨by rw [hstanding], rfl⟩
  | submitted packet hmembers hqueue hstanding => exact Or.inl ⟨by rw [hstanding], rfl⟩
  | processed packet hmembers hqueue hstanding => exact Or.inl ⟨by rw [hstanding], rfl⟩
  | delivered target notice hmembers hqueue hstanding =>
      by_cases htarget : target = id
      · subst htarget
        have hnext : next.standing target = notice.landing target (server.standing target) := by
          rw [hstanding, Function.update_self]
        have hdeliveries : deliveries target (some (.delivered target notice
            (notice.landing target (server.standing target)))).toList =
              [(notice, next.standing target)] := by
          simp [deliveries, Occurrence.delivery?, hnext]
        rw [hdeliveries]
        rw [hqueue, Function.update_self] at hsettled
        cases notice with
        | raw payload sender => exact Or.inl ⟨hnext.symm, rfl⟩
        | control change =>
            refine Or.inr ⟨?_, rfl⟩
            obtain ⟨landed, happly, -⟩ := Standing.apply_of_after_cons hsettled
            rw [hnext, Notice.landing, happly]
            exact Control.apply_ne happly
      · refine Or.inl ⟨?_, ?_⟩
        · rw [hstanding, Function.update_of_ne (Ne.symm htarget)]
        · simp [deliveries, Occurrence.delivery?, htarget, changes]

/-- What a member sees of the membership changes only with the control notices it is given, and with
each of them. -/
theorem destutter_standings (hconsistent : server.Consistent) (moves : List Move) (id : MemberId) :
    ((server.states moves).map (·.standing id)).destutter (· ≠ ·) =
      server.standing id :: changes (deliveries id (server.record moves)) := by
  induction moves generalizing server with
  | nil => rfl
  | cons move rest ih =>
      have hrest := ih (hconsistent.step move)
      obtain ⟨later, hlater⟩ := (server.step move).1.states_eq_cons rest
      rw [hlater, List.map_cons, List.destutter_cons'] at hrest
      rw [states, hlater, List.map_cons, List.map_cons, List.destutter_cons', record,
        deliveries_append, Standing.changes_append]
      rcases (step_change hconsistent.wired move).changes_deliveries id
        (hconsistent.settled id) with ⟨hsame, hchanges⟩ | ⟨hne, hchanges⟩
      · rw [List.destutter'_cons_neg _ (not_not.2 hsame), hsame, hrest, hchanges]
        rfl
      · rw [List.destutter'_cons_pos _ hne, hrest, hchanges]
        rfl

/-- What shows a member together with another one are the first ones of the memberships that both of
them belong to. -/
theorem filter_changes_isPrefixOf (moves : List Move) {first second : MemberId}
    (hmember : first ≠ second) :
    (changes (deliveries first (record {} moves))).filter (·.includes second) <+:
      MemberSet.shared first second (memberships {} moves) := by
  have hhead : ∀ newer ∈ (memberships {} moves).head?, first ∈ newer → OrderedSet.empty ≠ newer := by
    rintro newer - hfirst rfl
    exact MemberSet.not_mem_empty first hfirst
  have hchain : (memberships {} moves).IsChain (· ≠ ·) := List.isChain_destutter _ _
  rw [← MemberSet.filter_includes_itinerary hmember hhead hchain, ← changes_append_forecast]
  exact (List.prefix_append _ _).filter _

/-- **Membership history agreement.** A channel sees a new membership exactly with every control notice
it is given. Together with what still waits for it, it sees every stint of its owner from the owner's
entry, first alone and then in all memberships up to the departure. While two members are there
together, both see the same memberships in the same order. -/
theorem standings_follow_memberships (moves : List Move) :
    (∀ id,
      (((({} : Server).states moves).map (·.standing id)).destutter (· ≠ ·) =
        none :: changes (deliveries id (record {} moves))) ∧
      changes (deliveries id (record {} moves)) ++ changes ((run {} moves).forecast id) =
        MemberSet.itinerary id OrderedSet.empty (memberships {} moves) ∧
      ∀ before during after, memberships {} moves = before ++ during ++ after →
        MemberSet.Stint id before during after →
        changes (deliveries id (record {} moves)) ++ changes ((run {} moves).forecast id) =
          MemberSet.itinerary id OrderedSet.empty before ++ MemberSet.sojourn id during ++
            (if after = [] then [] else [none]) ++
            MemberSet.itinerary id OrderedSet.empty after) ∧
    ∀ first second, first ≠ second →
      (changes (deliveries first (record {} moves))).filter (·.includes second) <+:
          MemberSet.shared first second (memberships {} moves) ∧
        (changes (deliveries second (record {} moves))).filter (·.includes first) <+:
          MemberSet.shared first second (memberships {} moves) := by
  constructor
  · intro id
    refine ⟨destutter_standings consistent_empty moves id, changes_append_forecast moves id, ?_⟩
    intro before during after hsplit hstint
    have hchain : (memberships {} moves).IsChain (· ≠ ·) := List.isChain_destutter _ _
    rw [hsplit] at hchain
    rw [changes_append_forecast, hsplit]
    exact hstint.itinerary_eq hchain
  · intro first second hmember
    refine ⟨filter_changes_isPrefixOf moves hmember, ?_⟩
    rw [MemberSet.shared_comm]
    exact filter_changes_isPrefixOf moves (Ne.symm hmember)

/-- Both have entered, but the first one has heard of it all and the second one of itself only. -/
example :
    let moves : List Move :=
      [.send [1] (.control .selfEnter), .receive 0, .send [2] (.control .selfEnter), .receive 0,
        .deliver [2], .deliver [1], .deliver [1]]
    changes (deliveries [1] (record {} moves)) =
        [some (OrderedSet.ofList [[1]]), some (OrderedSet.ofList [[1], [2]])] ∧
      changes (deliveries [2] (record {} moves)) = [some (OrderedSet.ofList [[2]])] := by
  decide

end Server

end GroupChat
