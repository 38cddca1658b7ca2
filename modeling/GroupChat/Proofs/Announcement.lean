import GroupChat.Proofs.Settlement

/-!
# What a request announces

Main statement: a request to change the membership is carried out as far as it still makes sense, and
everybody whom it concerns is told of exactly that: who stays hears the delta, who enters hears of its
own entry and then of the others, who leaves hears just that. Asking for the same once more has no
effect.
-/

namespace GroupChat

namespace Control

/-- Whom a request wants to enter. -/
def entering (sender : MemberId) : Control → MemberSet
  | .selfEnter => OrderedSet.singleton sender
  | .selfLeave => OrderedSet.empty
  | .delta change => change.enter

/-- Whom a request wants to leave. -/
def leaving (sender : MemberId) : Control → MemberSet
  | .selfEnter => OrderedSet.empty
  | .selfLeave => OrderedSet.singleton sender
  | .delta change => change.leave

theorem requested_eq (sender : MemberId) (change : Control) :
    Server.requested sender change = (change.entering sender, change.leaving sender) := by
  cases change <;> rfl

end Control

namespace MemberSet

/-- What a member has to be told of a change, and no more than that. Every control in it passes the
check of those who build it. -/
structure Announced (older newer : MemberSet) (id : MemberId) (news : List Notice) : Prop where
  unchanged : (older.changeTo newer).added.isEmpty = true →
    (older.changeTo newer).removed.isEmpty = true → news = []
  stays : id ∈ older → id ∈ newer →
    ((older.changeTo newer).added.isEmpty && (older.changeTo newer).removed.isEmpty) = false →
    ∃ change, Control.ofSets (older.changeTo newer).added (older.changeTo newer).removed =
      .ok change ∧ news = [.control change]
  entersAlone : id ∈ (older.changeTo newer).added → newer = OrderedSet.singleton id →
    news = [.control .selfEnter]
  entersAmong : id ∈ (older.changeTo newer).added → newer ≠ OrderedSet.singleton id →
    ∃ change, Control.ofSets (newer.sdiff (OrderedSet.singleton id)) OrderedSet.empty =
      .ok change ∧ news = [.control .selfEnter, .control change]
  leaves : id ∈ (older.changeTo newer).removed → news = [.control .selfLeave]
  outside : id ∉ older → id ∉ newer → news = []

variable {older newer : MemberSet} {id : MemberId}

theorem isEmpty_changeTo_iff :
    ((older.changeTo newer).added.isEmpty && (older.changeTo newer).removed.isEmpty) = true ↔
      older = newer := by
  rw [Bool.and_eq_true]
  constructor
  · rintro ⟨hadded, hremoved⟩
    by_contra hne
    obtain ⟨id, hid | hid⟩ := ne_iff_exists_sdiff.1 hne
    · exact isEmpty_iff_forall.1 hadded id hid
    · exact isEmpty_iff_forall.1 hremoved id hid
  · rintro rfl
    simp [OrderedSet.changeTo, isEmpty_iff_forall]

theorem announced_announcements (older newer : MemberSet) (id : MemberId) :
    Announced older newer id (older.announcements newer id) where
  unchanged hadded hremoved := by
    have hsame : older = newer := isEmpty_changeTo_iff.1 (by rw [hadded, hremoved]; rfl)
    rw [hsame, announcements_self]
  stays holder hnewer hchanged := by
    have hne : older ≠ newer := fun heq => by
      rw [isEmpty_changeTo_iff.2 heq] at hchanged
      cases hchanged
    refine ⟨_, Server.ofSets_sdiff hne, ?_⟩
    rw [announcements, if_pos hnewer, if_pos holder, updates, dif_neg hne]
  entersAlone hadded halone := by
    obtain ⟨hnewer, holder⟩ := mem_sdiff_iff.1 hadded
    rw [announcements, if_pos hnewer, if_neg holder, halone, updates_self]
  entersAmong hadded hothers := by
    obtain ⟨hnewer, holder⟩ := mem_sdiff_iff.1 hadded
    have hdelta := Server.ofSets_sdiff (Ne.symm hothers)
    rw [singleton_sdiff hnewer] at hdelta
    refine ⟨_, hdelta, ?_⟩
    rw [announcements, if_pos hnewer, if_neg holder, updates, dif_neg (Ne.symm hothers)]
  leaves hremoved := by
    obtain ⟨holder, hnewer⟩ := mem_sdiff_iff.1 hremoved
    rw [announcements, if_neg hnewer, if_pos holder]
  outside holder hnewer := by
    rw [announcements, if_neg hnewer, if_neg holder]

end MemberSet

namespace Packet

variable {sender : MemberId} {change : Control} {members : MemberSet}

theorem membersAfter_of_effective (heffective : sender ∈ members ∨ change = .selfEnter) :
    (⟨sender, .control change⟩ : Packet).membersAfter members =
      (members.sdiff (change.leaving sender)).union (change.entering sender) := by
  simp only [membersAfter, if_pos heffective, Control.requested_eq]

theorem membersAfter_of_ignored (hsender : sender ∉ members) (hchange : change ≠ .selfEnter) :
    (⟨sender, .control change⟩ : Packet).membersAfter members = members := by
  simp [membersAfter, hsender, hchange]

/-- Whoever repeats a request finds it carried out, or is not there to make it. -/
theorem membersAfter_membersAfter (sender : MemberId) (change : Control) (members : MemberSet) :
    let packet : Packet := ⟨sender, .control change⟩
    packet.membersAfter (packet.membersAfter members) = packet.membersAfter members := by
  intro packet
  by_cases hagain : sender ∈ packet.membersAfter members ∨ change = .selfEnter
  · rw [membersAfter_of_effective hagain]
    by_cases hfirst : sender ∈ members ∨ change = .selfEnter
    · rw [membersAfter_of_effective hfirst]
      apply MemberSet.eq_of_mem_iff
      intro id
      simp only [MemberSet.mem_union_iff, MemberSet.mem_sdiff_iff]
      tauto
    · rw [not_or] at hfirst
      rw [membersAfter_of_ignored hfirst.1 hfirst.2] at hagain
      exact absurd hagain (not_or.2 hfirst)
  · rw [not_or] at hagain
    exact membersAfter_of_ignored hagain.1 hagain.2

end Packet

namespace Server

theorem eq_nil_of_newsFor {entries : List (MemberId × Notice)}
    (hnone : ∀ id, newsFor id entries = []) : entries = [] := by
  cases entries with
  | nil => rfl
  | cons entry rest =>
      have hentry := hnone entry.1
      rw [newsFor_cons, if_pos rfl] at hentry
      cases hentry

/-- A request that leaves the membership as it is leaves everything as it is. -/
theorem settle_of_membersAfter_eq {server : Server} {sender : MemberId} {change : Control}
    (hsame : (⟨sender, .control change⟩ : Packet).membersAfter server.members = server.members) :
    ∃ lines, server.settle ⟨sender, .control change⟩ = .ok (server, lines) := by
  obtain ⟨entries, lines, hok, hnews⟩ := settle_eq_ok server ⟨sender, .control change⟩
  have hentries : entries = [] := eq_nil_of_newsFor fun id => by
    rw [hnews id, Packet.share, hsame, MemberSet.announcements_self]
  rw [hsame, hentries] at hok
  exact ⟨lines, hok⟩

/-- **Minimal announcements.** A request never fails. From outside nothing but a request to enter has
any effect. Otherwise those whom it wants to leave go, those whom it wants to enter come, and everybody
is told what it has to know of the change. The same request once more does nothing. -/
theorem settle_announces_change (server : Server) (sender : MemberId) (change : Control) :
    ∃ next lines, server.settle ⟨sender, .control change⟩ = .ok (next, lines) ∧
      next.incoming = server.incoming ∧ next.standing = server.standing ∧
      (sender ∉ server.members → change ≠ .selfEnter → next = server) ∧
      (sender ∈ server.members ∨ change = .selfEnter →
        next.members =
            (server.members.sdiff (change.leaving sender)).union (change.entering sender) ∧
          ∀ id, ∃ news, next.queue id = server.queue id ++ news ∧
            MemberSet.Announced server.members next.members id news) ∧
      ∃ again, next.settle ⟨sender, .control change⟩ = .ok (next, again) := by
  obtain ⟨entries, lines, hok, hnews⟩ := settle_eq_ok server ⟨sender, .control change⟩
  generalize hafter : (⟨sender, .control change⟩ : Packet).membersAfter server.members = members
    at hok
  refine ⟨_, lines, hok, incoming_postAll _ entries, ?_, ?_, ?_, ?_⟩
  · funext id
    rw [standing_eq, standing_eq, mailbox_postAll]
    rfl
  · intro hsender hchange
    have hsame := Packet.membersAfter_of_ignored hsender hchange
    obtain ⟨quiet, hquiet⟩ := settle_of_membersAfter_eq hsame
    rw [hquiet, Except.ok.injEq, Prod.mk.injEq] at hok
    exact hok.1.symm
  · intro heffective
    rw [members_postAll]
    refine ⟨by rw [← hafter, Packet.membersAfter_of_effective heffective], fun id => ?_⟩
    refine ⟨newsFor id entries, ?_, ?_⟩
    · rw [queue_eq, queue_eq, mailbox_postAll]
      rfl
    · rw [hnews id, Packet.share, hafter]
      exact MemberSet.announced_announcements server.members members id
  · apply settle_of_membersAfter_eq
    rw [members_postAll, ← hafter]
    exact Packet.membersAfter_membersAfter sender change server.members

end Server

end GroupChat
