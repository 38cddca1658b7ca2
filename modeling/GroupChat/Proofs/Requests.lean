import GroupChat.Proofs.Membership

/-!
# Requests

Each half of a request is absent, a flag, or ids in any order with any repeats. A flag that is set asks for the
sender's own entry or departure and puts up with nothing beside it. All other halves come down to the ids that
they name. Main statement: which control a request leads to, or which kind of error, by its flags and by the ids
that are named.
-/

namespace GroupChat

namespace Control

/-- The error, or the delta, that two sets of ids lead to. -/
theorem ofSets_cases (enter leave : MemberSet) :
    ((∀ id, id ∉ enter ∧ id ∉ leave) ∧ ofSets enter leave = .error .emptyDelta) ∨
      ((∃ id, id ∈ enter ∧ id ∈ leave) ∧
        ofSets enter leave = .error (.overlappingDelta (enter.inter leave))) ∨
      ((∃ id, id ∈ enter ∨ id ∈ leave) ∧ (∀ id, ¬(id ∈ enter ∧ id ∈ leave)) ∧
        ∃ change : Delta, change.enter = enter ∧ change.leave = leave ∧
          ofSets enter leave = .ok (.delta change)) := by
  by_cases hempty : (enter.isEmpty && leave.isEmpty) = true
  · refine .inl ⟨fun id => ?_, by rw [ofSets, dif_pos hempty]⟩
    rw [Bool.and_eq_true, MemberSet.isEmpty_iff_forall, MemberSet.isEmpty_iff_forall] at hempty
    exact ⟨hempty.1 id, hempty.2 id⟩
  · by_cases hdisjoint : enter.isDisjoint leave = true
    · let change : Delta := ⟨enter, leave, hdisjoint, Bool.eq_false_iff.2 hempty⟩
      refine .inr (.inr ⟨change.exists_mem, ?_, change, rfl, rfl, ofSets_delta change⟩)
      rintro id ⟨henter, hleave⟩
      exact MemberSet.isDisjoint_iff_forall.1 hdisjoint id henter hleave
    · refine .inr (.inl ⟨?_, by rw [ofSets, dif_neg hempty, dif_neg hdisjoint]⟩)
      rw [MemberSet.isDisjoint_iff_forall] at hdisjoint
      push Not at hdisjoint
      exact hdisjoint

/-- The ids that one half of a request names. -/
def Names : Option Field → MemberId → Prop
  | none, _ | some (.flag _), _ => False
  | some (.list ids), id => id ∈ ids
  | some (.set members), id => id ∈ members

theorem mem_members_iff {half : Option Field} {id : MemberId} :
    id ∈ (half.map Field.members).getD OrderedSet.empty ↔ Names half id := by
  match half with
  | none => exact iff_of_false (MemberSet.not_mem_empty id) not_false
  | some (.flag _) => exact iff_of_false (MemberSet.not_mem_empty id) not_false
  | some (.list ids) => exact MemberSet.mem_ofList_iff
  | some (.set members) => exact Iff.rfl

namespace Request

/-- No half of the request is a flag that is set. -/
def IsPlain (request : Request) : Prop :=
  request.enter ≠ some (.flag true) ∧ request.leave ≠ some (.flag true)

/-- Checks a request as always, but reads its halves as sets of ids in some way of its own. -/
def checkBy (read : Field → MemberSet) (request : Request) : Except ControlError Control :=
  if request.enter = some (.flag true) then
    if request.leave.isSome then .error .enterWithLeave else .ok .selfEnter
  else if request.leave = some (.flag true) then
    if request.enter.isSome then .error .leaveWithEnter else .ok .selfLeave
  else
    ofSets ((request.enter.map read).getD OrderedSet.empty) ((request.leave.map read).getD OrderedSet.empty)

theorem checkBy_members (request : Request) : request.checkBy Field.members = ofRequest request := rfl

def FailsWith (request : Request) (kind : ControlError.Kind) : Prop :=
  ∃ error, ofRequest request = .error error ∧ error.kind = kind

variable {request other : Request} {kind : ControlError.Kind}

theorem failsWith_iff_of_error {error : ControlError} (herror : ofRequest request = .error error) :
    request.FailsWith kind ↔ error.kind = kind := by
  constructor
  · rintro ⟨other, hother, hkind⟩
    cases herror.symm.trans hother
    exact hkind
  · exact fun hkind => ⟨error, herror, hkind⟩

theorem not_failsWith_of_ok {control : Control} (hok : ofRequest request = .ok control) :
    ¬request.FailsWith kind := by
  rintro ⟨error, herror, -⟩
  cases hok.symm.trans herror

theorem ofRequest_of_isPlain (hplain : request.IsPlain) :
    ofRequest request = ofSets ((request.enter.map Field.members).getD OrderedSet.empty)
      ((request.leave.map Field.members).getD OrderedSet.empty) := by
  rw [ofRequest, if_neg hplain.1, if_neg hplain.2]

theorem ofRequest_of_enter (henter : request.enter = some (.flag true)) :
    (request.leave = none → ofRequest request = .ok .selfEnter) ∧
      (request.leave ≠ none → ofRequest request = .error .enterWithLeave) := by
  rw [ofRequest, if_pos henter]
  cases request.leave with
  | none => exact ⟨fun _ => rfl, fun hsome => absurd rfl hsome⟩
  | some half => exact ⟨nofun, fun _ => rfl⟩

theorem ofRequest_of_leave (henter : request.enter ≠ some (.flag true))
    (hleave : request.leave = some (.flag true)) :
    (request.enter = none → ofRequest request = .ok .selfLeave) ∧
      (request.enter ≠ none → ofRequest request = .error .leaveWithEnter) := by
  rw [ofRequest, if_neg henter, if_pos hleave]
  cases request.enter with
  | none => exact ⟨fun _ => rfl, fun hsome => absurd rfl hsome⟩
  | some half => exact ⟨nofun, fun _ => rfl⟩

/-- Without flags to follow, it is the named ids that count. -/
theorem ofRequest_cases_of_isPlain (hplain : request.IsPlain) :
    ((∀ id, ¬Names request.enter id ∧ ¬Names request.leave id) ∧
        ofRequest request = .error .emptyDelta) ∨
      ((∃ id, Names request.enter id ∧ Names request.leave id) ∧
        ∃ both : MemberSet, ofRequest request = .error (.overlappingDelta both) ∧
          ∀ id, id ∈ both ↔ Names request.enter id ∧ Names request.leave id) ∨
      ((∃ id, Names request.enter id ∨ Names request.leave id) ∧
        (∀ id, ¬(Names request.enter id ∧ Names request.leave id)) ∧
        ∃ change : Delta, ofRequest request = .ok (.delta change) ∧
          ∀ id, (id ∈ change.enter ↔ Names request.enter id) ∧
            (id ∈ change.leave ↔ Names request.leave id)) := by
  rw [ofRequest_of_isPlain hplain]
  simp only [← mem_members_iff]
  obtain hnone | ⟨hboth, herror⟩ | ⟨hsome, hnotBoth, change, henter, hleave, hok⟩ := ofSets_cases
    ((request.enter.map Field.members).getD OrderedSet.empty)
    ((request.leave.map Field.members).getD OrderedSet.empty)
  · exact .inl hnone
  · exact .inr (.inl ⟨hboth, _, herror, fun id => MemberSet.mem_inter_iff⟩)
  · refine .inr (.inr ⟨hsome, hnotBoth, change, hok, fun id => ?_⟩)
    rw [henter, hleave]
    exact ⟨Iff.rfl, Iff.rfl⟩

/-- Requests without flags to follow have one of three outcomes. -/
theorem outcome_of_isPlain (hplain : request.IsPlain) :
    (request.FailsWith .emptyDelta ↔ ∀ id, ¬Names request.enter id ∧ ¬Names request.leave id) ∧
      (request.FailsWith .overlappingDelta ↔ ∃ id, Names request.enter id ∧ Names request.leave id) ∧
      (∀ both : MemberSet, ofRequest request = .error (.overlappingDelta both) →
        ∀ id, id ∈ both ↔ Names request.enter id ∧ Names request.leave id) ∧
      ((∃ id, Names request.enter id ∨ Names request.leave id) →
        (∀ id, ¬(Names request.enter id ∧ Names request.leave id)) →
          ∃ change : Delta, ofRequest request = .ok (.delta change) ∧
            ∀ id, (id ∈ change.enter ↔ Names request.enter id) ∧
              (id ∈ change.leave ↔ Names request.leave id)) := by
  obtain ⟨hnone, herror⟩ | ⟨⟨id, hid⟩, both, herror, hboth⟩ | ⟨⟨id, hid⟩, hnotBoth, change, hok, hchange⟩ :=
    ofRequest_cases_of_isPlain hplain
  · simp only [failsWith_iff_of_error herror, herror]
    refine ⟨iff_of_true rfl hnone, iff_of_false nofun ?_, nofun, ?_⟩
    · rintro ⟨id, hid, -⟩
      exact (hnone id).1 hid
    · rintro ⟨id, hid⟩
      exact absurd hid (not_or.2 (hnone id))
  · simp only [failsWith_iff_of_error herror, herror]
    refine ⟨iff_of_false nofun fun hnone => (hnone id).1 hid.1, iff_of_true rfl ⟨id, hid⟩, ?_, ?_⟩
    · rintro _ ⟨⟩
      exact hboth
    · exact fun _ hnotBoth => absurd hid (hnotBoth id)
  · simp only [hok]
    refine ⟨iff_of_false (not_failsWith_of_ok hok) fun hnone => hid.elim (hnone id).1 (hnone id).2,
      iff_of_false (not_failsWith_of_ok hok) ?_, nofun, fun _ _ => ⟨change, rfl, hchange⟩⟩
    rintro ⟨other, hother⟩
    exact hnotBoth other hother

/-- A flag that is set is not read. -/
theorem checkBy_eq_ofRequest {read : Field → MemberSet}
    (hread : ∀ field, field ≠ .flag true → read field = field.members) :
    request.checkBy read = ofRequest request := by
  have hhalf : ∀ half : Option Field, half ≠ some (.flag true) → half.map read = half.map Field.members := by
    intro half hhalf
    cases half with
    | none => rfl
    | some field => exact congrArg some (hread field fun heq => hhalf (congrArg some heq))
  rw [← checkBy_members, checkBy, checkBy]
  refine ite_congr rfl (fun _ => rfl) fun henter => ite_congr rfl (fun _ => rfl) fun hleave => ?_
  rw [hhalf request.enter henter, hhalf request.leave hleave]

theorem ofRequest_congr (hplain : request.IsPlain) (hplain' : other.IsPlain)
    (henter : ∀ id, Names request.enter id ↔ Names other.enter id)
    (hleave : ∀ id, Names request.leave id ↔ Names other.leave id) :
    ofRequest request = ofRequest other := by
  simp only [← mem_members_iff] at henter hleave
  rw [ofRequest_of_isPlain hplain, ofRequest_of_isPlain hplain', MemberSet.eq_of_mem_iff henter,
    MemberSet.eq_of_mem_iff hleave]

end Request

/-- **Requests.** A flag to enter is followed if nothing is said of leaving, and contradicts whatever is said.
Otherwise a flag to leave is followed if nothing is said of entering, and contradicts whatever is said. Without
such flags a request fails as empty if no ids are named, and as overlapping, with all ids that both halves name,
if there are any, and otherwise it comes to the delta of the ids that are named. It makes no difference what a
flag that is set would be read as, and requests without such flags that name the same ids come to the same. -/
theorem requests_are_checked (request : Request) :
    (request.enter = some (.flag true) →
        (request.leave = none → ofRequest request = .ok .selfEnter) ∧
          (request.leave ≠ none → ofRequest request = .error .enterWithLeave ∧
            request.FailsWith .contradictoryIntent)) ∧
      (request.enter ≠ some (.flag true) → request.leave = some (.flag true) →
        (request.enter = none → ofRequest request = .ok .selfLeave) ∧
          (request.enter ≠ none → ofRequest request = .error .leaveWithEnter ∧
            request.FailsWith .contradictoryIntent)) ∧
      (request.IsPlain →
        (request.FailsWith .emptyDelta ↔ ∀ id, ¬Names request.enter id ∧ ¬Names request.leave id) ∧
          (request.FailsWith .overlappingDelta ↔ ∃ id, Names request.enter id ∧ Names request.leave id) ∧
          (∀ both : MemberSet, ofRequest request = .error (.overlappingDelta both) →
            ∀ id, id ∈ both ↔ Names request.enter id ∧ Names request.leave id) ∧
          ((∃ id, Names request.enter id ∨ Names request.leave id) →
            (∀ id, ¬(Names request.enter id ∧ Names request.leave id)) →
              ∃ change : Delta, ofRequest request = .ok (.delta change) ∧
                ∀ id, (id ∈ change.enter ↔ Names request.enter id) ∧
                  (id ∈ change.leave ↔ Names request.leave id))) ∧
      (∀ read : Field → MemberSet, (∀ field, field ≠ .flag true → read field = field.members) →
        request.checkBy read = ofRequest request) ∧
      ∀ other : Request, request.IsPlain → other.IsPlain →
        (∀ id, Names request.enter id ↔ Names other.enter id) →
          (∀ id, Names request.leave id ↔ Names other.leave id) → ofRequest request = ofRequest other := by
  refine ⟨fun henter => ?_, fun henter hleave => ?_, Request.outcome_of_isPlain,
    fun read => Request.checkBy_eq_ofRequest, fun other => Request.ofRequest_congr⟩
  · obtain ⟨halone, hboth⟩ := Request.ofRequest_of_enter henter
    exact ⟨halone, fun hleave => ⟨hboth hleave, _, hboth hleave, rfl⟩⟩
  · obtain ⟨halone, hboth⟩ := Request.ofRequest_of_leave henter hleave
    exact ⟨halone, fun henter => ⟨hboth henter, _, hboth henter, rfl⟩⟩

/-- Ids in another order and with a repeat, and a flag that is not set in place of nothing. -/
theorem repeats_come_to_the_same :
    let request : Request := { enter := some (.list [[98], [97], [98]]), leave := some (.flag false) }
    let other : Request := { enter := some (.set (.ofList [[97], [98]])) }
    request.IsPlain ∧ other.IsPlain ∧ (∀ id, Names request.enter id ↔ Names other.enter id) ∧
      (∀ id, Names request.leave id ↔ Names other.leave id) ∧ ofRequest request = ofRequest other := by
  intro request other
  have hplain : request.IsPlain := ⟨nofun, nofun⟩
  have hplain' : other.IsPlain := ⟨nofun, nofun⟩
  have henter : ∀ id, Names request.enter id ↔ Names other.enter id := by
    intro id
    change id ∈ [[98], [97], [98]] ↔ id ∈ (OrderedSet.ofList [[97], [98]] : MemberSet)
    rw [MemberSet.mem_ofList_iff]
    simp only [List.mem_cons, List.not_mem_nil, or_false]
    tauto
  have hleave : ∀ id, Names request.leave id ↔ Names other.leave id := fun id => Iff.rfl
  obtain ⟨-, -, -, -, hsame⟩ := requests_are_checked request
  exact ⟨hplain, hplain', henter, hleave, hsame other hplain hplain' henter hleave⟩

end Control

end GroupChat
