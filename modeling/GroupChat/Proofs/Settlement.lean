import GroupChat.Proofs.Mailbox
import GroupChat.Proofs.Results
import GroupChat.Proofs.Transition

/-!
# What processing a packet does

`membersAfter` and `share` say, without any mailbox, what a packet makes of the membership and what
each member hears of it. Main statement: `settle_eq_ok`, processing a packet never fails, changes the
membership to `membersAfter` and posts to every member exactly its `share`.
-/

namespace GroupChat

namespace Packet

/-- Those who leave go and those who enter come. Who is outside can only ask to enter. -/
def membersAfter (packet : Packet) (members : MemberSet) : MemberSet :=
  match packet.action with
  | .raw _ _ => members
  | .control change =>
      if packet.sender ∈ members ∨ change = .selfEnter then
        (members.sdiff (Server.requested packet.sender change).2).union
          (Server.requested packet.sender change).1
      else members

/-- What a member hears of a packet that is processed under some membership. -/
def share (packet : Packet) (members : MemberSet) (id : MemberId) : List Notice :=
  match packet.action with
  | .raw payload _ =>
      if packet.sender ∈ members ∧ id ∈ members then [.raw payload packet.sender] else []
  | .control _ => members.announcements (packet.membersAfter members) id

end Packet

theorem MemberSet.nodup_items (members : MemberSet) : members.items.Nodup := by
  refine members.increasing.imp fun {first second} hlt => ?_
  rintro rfl
  simp [StrictWeakOrder.lt_irrefl] at hlt

namespace Server

variable {older newer : MemberSet} {id : MemberId}

theorem ofSets_sdiff (hne : older ≠ newer) :
    Control.ofSets (newer.sdiff older) (older.sdiff newer) =
      .ok (.delta (.between older newer hne)) :=
  Control.ofSets_delta (.between older newer hne)

theorem noticesForRemaining_eq_ok (hne : older ≠ newer) (remaining : MemberSet) :
    noticesForRemaining remaining (newer.sdiff older) (older.sdiff newer) =
      .ok (remaining.items.flatMap fun id => (older.updates newer).map (id, ·)) := by
  unfold noticesForRemaining
  by_cases hempty : remaining.isEmpty = true
  · have hitems : remaining.items = [] := List.isEmpty_iff.1 hempty
    rw [if_pos hempty, hitems]
    rfl
  · rw [if_neg hempty, ofSets_sdiff hne]
    simp only [MemberSet.updates, dif_neg hne, List.map_cons, List.map_nil]
    rw [← List.map_eq_flatMap]
    rfl

theorem noticesForEntrant_eq_ok (hmem : id ∈ newer) :
    noticesForEntrant newer id =
      .ok ((.control .selfEnter ::
        MemberSet.updates (OrderedSet.singleton id) newer).map (id, ·)) := by
  have hleave := MemberSet.singleton_sdiff hmem
  unfold noticesForEntrant
  by_cases hsame : OrderedSet.singleton id = newer
  · have hempty : (newer.sdiff (OrderedSet.singleton id)).isEmpty = true :=
      MemberSet.isEmpty_iff_forall.2 (by simp [← hsame])
    simp only [hempty, if_true, MemberSet.updates, dif_pos hsame, List.map_cons, List.map_nil]
  · have hempty : ¬(newer.sdiff (OrderedSet.singleton id)).isEmpty = true := by
      intro hempty
      obtain ⟨other, hother | hother⟩ := MemberSet.ne_iff_exists_sdiff.1 hsame
      · exact MemberSet.isEmpty_iff_forall.1 hempty other hother
      · rw [hleave] at hother
        exact MemberSet.not_mem_empty other hother
    have hdelta := ofSets_sdiff hsame
    rw [hleave] at hdelta
    simp only [if_neg hempty, hdelta, MemberSet.updates, dif_neg hsame, List.map_cons,
      List.map_nil]
    rfl

theorem changeNotices_eq_ok (hne : older ≠ newer) :
    ∃ entries,
      changeNotices (older.sdiff (older.sdiff newer)) (newer.sdiff older) (older.sdiff newer) =
        .ok entries ∧
      ∀ id, newsFor id entries = older.announcements newer id := by
  let remaining : MemberSet := older.sdiff (older.sdiff newer)
  let enter : MemberSet := newer.sdiff older
  let leave : MemberSet := older.sdiff newer
  have hunion : remaining.union enter = newer := by
    apply MemberSet.eq_of_mem_iff
    intro id
    simp only [remaining, enter, MemberSet.mem_union_iff, MemberSet.mem_sdiff_iff]
    tauto
  have hentrants : enter.items.mapM (noticesForEntrant (remaining.union enter)) =
      .ok (enter.items.map fun id =>
        (.control .selfEnter ::
          MemberSet.updates (OrderedSet.singleton id) newer).map (id, ·)) := by
    apply mapM_eq_ok_map
    intro id hid
    rw [hunion]
    exact noticesForEntrant_eq_ok
      (MemberSet.mem_sdiff_iff.1 (MemberSet.mem_items_iff.1 hid)).1
  refine ⟨(remaining.items.flatMap fun id => (older.updates newer).map (id, ·)) ++
      (enter.items.flatMap fun id =>
        (.control .selfEnter ::
          MemberSet.updates (OrderedSet.singleton id) newer).map (id, ·)) ++
      (leave.items.flatMap fun id => [Notice.control .selfLeave].map (id, ·)), ?_, fun id => ?_⟩
  · unfold changeNotices
    rw [noticesForRemaining_eq_ok hne remaining, hentrants]
    simp only [bind, Except.bind, pure, Except.pure, List.map_cons, List.map_nil]
    rw [← List.map_eq_flatMap, List.flatMap_def]
    rfl
  · rw [newsFor_append, newsFor_append, newsFor_flatMap _ remaining.nodup_items,
      newsFor_flatMap _ enter.nodup_items, newsFor_flatMap _ leave.nodup_items]
    simp only [MemberSet.mem_items_iff, remaining, enter, leave, MemberSet.mem_sdiff_iff]
    by_cases hnewer : id ∈ newer <;> by_cases holder : id ∈ older <;>
      simp [MemberSet.announcements, hnewer, holder]

theorem requested_disjoint (sender : MemberId) (change : Control) (id : MemberId)
    (hmem : id ∈ (requested sender change).1) : id ∉ (requested sender change).2 := by
  cases change with
  | selfEnter => exact MemberSet.not_mem_empty id
  | selfLeave => exact absurd hmem (MemberSet.not_mem_empty id)
  | delta change => exact MemberSet.isDisjoint_iff_forall.1 change.disjoint id hmem

theorem changeMembers_eq_ok (members : MemberSet) (sender : MemberId) (change : Control) :
    ∃ entries lines,
      changeMembers members sender change =
        .ok ⟨(members.sdiff (requested sender change).2).union (requested sender change).1, entries,
          lines⟩ ∧
      ∀ id, newsFor id entries =
        members.announcements ((members.sdiff (requested sender change).2).union
          (requested sender change).1) id := by
  have hdisjoint := requested_disjoint sender change
  unfold changeMembers
  generalize requested sender change = wanted at hdisjoint ⊢
  obtain ⟨wantEnter, wantLeave⟩ := wanted
  dsimp only at hdisjoint ⊢
  generalize hnewer : (members.sdiff wantLeave).union wantEnter = newer
  have hmem : ∀ id, id ∈ newer ↔ (id ∈ members ∧ id ∉ wantLeave) ∨ id ∈ wantEnter := by
    intro id
    rw [← hnewer, MemberSet.mem_union_iff, MemberSet.mem_sdiff_iff]
  have henter : wantEnter.sdiff members = newer.sdiff members := by
    apply MemberSet.eq_of_mem_iff
    intro id
    rw [MemberSet.mem_sdiff_iff, MemberSet.mem_sdiff_iff, hmem]
    tauto
  -- Here it matters that nobody is asked to enter and to leave at once.
  have hleave : wantLeave.inter members = members.sdiff newer := by
    apply MemberSet.eq_of_mem_iff
    intro id
    have hid := hdisjoint id
    rw [MemberSet.mem_sdiff_iff, MemberSet.mem_inter_iff, hmem]
    tauto
  rw [henter, hleave]
  by_cases hsame : members = newer
  · have hempty : (newer.sdiff newer).isEmpty = true :=
      MemberSet.isEmpty_iff_forall.2 (by simp)
    rw [hsame, hempty, Bool.and_self, if_pos rfl, ← hsame]
    refine ⟨[], _, rfl, fun id => ?_⟩
    rw [MemberSet.announcements_self]
    rfl
  · obtain ⟨entries, hentries, hnews⟩ := changeNotices_eq_ok hsame
    have hunion : (members.sdiff (members.sdiff newer)).union (newer.sdiff members) = newer := by
      apply MemberSet.eq_of_mem_iff
      intro id
      simp only [MemberSet.mem_union_iff, MemberSet.mem_sdiff_iff]
      tauto
    have hnonempty : ((newer.sdiff members).isEmpty && (members.sdiff newer).isEmpty) = false :=
      (Delta.between members newer hsame).nonempty
    rw [hnonempty, if_neg Bool.false_ne_true, hentries, hunion]
    exact ⟨entries, _, rfl, hnews⟩

theorem newsFor_broadcast (members : MemberSet) (notice : Notice) (id : MemberId) :
    newsFor id (members.items.map fun member => (member, notice)) =
      if id ∈ members then [notice] else [] := by
  have hsingle := newsFor_flatMap id members.nodup_items fun _ => [notice]
  simp only [List.map_cons, List.map_nil] at hsingle
  rw [List.map_eq_flatMap, hsingle]
  simp only [MemberSet.mem_items_iff]

/-- There is a decision about every packet. -/
theorem rule_eq_ok (members : MemberSet) (packet : Packet) :
    ∃ entries lines,
      rule members packet = .ok ⟨packet.membersAfter members, entries, lines⟩ ∧
      ∀ id, newsFor id entries = packet.share members id := by
  obtain ⟨sender, action⟩ := packet
  unfold rule
  by_cases hsender : sender ∈ members
  · have hcontains : members.contains sender = true := hsender
    cases action with
    | raw payload recipients =>
        refine ⟨members.items.map fun id => (id, .raw payload sender),
          (broadcast members sender payload recipients).lines, ?_, fun id => ?_⟩
        · rw [hcontains]
          rfl
        · rw [newsFor_broadcast]
          simp [Packet.share, hsender]
    | control change =>
        obtain ⟨entries, lines, hok, hnews⟩ := changeMembers_eq_ok members sender change
        refine ⟨entries, lines, ?_, fun id => ?_⟩
        · simpa [hcontains, Packet.membersAfter, hsender] using hok
        · simpa [Packet.share, Packet.membersAfter, hsender] using hnews id
  · have hcontains : members.contains sender = false := Bool.eq_false_iff.2 hsender
    by_cases hselfEnter : action = .control .selfEnter
    · subst hselfEnter
      obtain ⟨entries, lines, hok, hnews⟩ := changeMembers_eq_ok members sender .selfEnter
      refine ⟨entries, lines, ?_, fun id => ?_⟩
      · simpa [hcontains, Packet.membersAfter] using hok
      · simpa [Packet.share, Packet.membersAfter] using hnews id
    · have hmembers : (⟨sender, action⟩ : Packet).membersAfter members = members := by
        cases action with
        | raw payload recipients => rfl
        | control change =>
            have hchange : change ≠ .selfEnter := fun heq => hselfEnter (heq ▸ rfl)
            simp [Packet.membersAfter, hsender, hchange]
      refine ⟨[], [line .info (Bytes.ofString "Ignoring packet from non-member " ++ sender)],
        ?_, fun id => ?_⟩
      · rw [hmembers]
        simp [hcontains, hselfEnter]
      · cases action with
        | raw payload recipients => simp [Packet.share, hsender, newsFor]
        | control change =>
            simp only [Packet.share, hmembers, MemberSet.announcements_self]
            rfl

/-- Processing a packet never fails. -/
theorem settle_eq_ok (server : Server) (packet : Packet) :
    ∃ entries lines,
      server.settle packet =
        .ok ({ server with members := packet.membersAfter server.members }.postAll entries, lines) ∧
      ∀ id, newsFor id entries = packet.share server.members id := by
  obtain ⟨entries, lines, hrule, hnews⟩ := rule_eq_ok server.members packet
  refine ⟨entries, lines, ?_, hnews⟩
  rw [settle, hrule]

end Server

end GroupChat
