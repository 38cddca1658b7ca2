import GroupChat.Proofs.Consistency
import Mathlib.Data.List.Basic

/-!
# Delivery of notices

Main statements: members get exactly their shares of what was processed, in the order of processing,
and a payload reaches a member while it sees the very membership under which the payload was
processed. So any two members agree on the order of the payloads that both of them get.
-/

namespace GroupChat

namespace Notice

def isPayload : Notice → Bool
  | .raw _ _ => true
  | .control _ => false

end Notice

/-- Whether somebody is among those whom the owner sees. -/
def Standing.includes (standing : Standing) (id : MemberId) : Bool :=
  standing.any fun members => decide (id ∈ members)

namespace Packet

variable {packet : Packet} {members : MemberSet} {id sender : MemberId}

/-- What a member gets of a payload: it has to belong to the group, and so has the sender. Whom the
payload was meant for plays no part. -/
def receipt (packet : Packet) (members : MemberSet) (id : MemberId) : Option (Notice × Standing) :=
  match packet.action with
  | .raw payload _ =>
      if packet.sender ∈ members ∧ id ∈ members then
        some (.raw payload packet.sender, some members)
      else none
  | .control _ => none

theorem not_isPayload_of_mem_announcements {older newer : MemberSet} {notice : Notice}
    (hmem : notice ∈ older.announcements newer id) : notice.isPayload = false := by
  have hupdates : ∀ {first second : MemberSet}, notice ∈ first.updates second →
      notice.isPayload = false := by
    intro first second hmem
    unfold MemberSet.updates at hmem
    split at hmem
    · simp at hmem
    · rw [List.mem_singleton.1 hmem]
      rfl
  unfold MemberSet.announcements at hmem
  split at hmem
  · split at hmem
    · exact hupdates hmem
    · rcases List.mem_cons.1 hmem with rfl | hmem
      · rfl
      · exact hupdates hmem
  · split at hmem
    · rw [List.mem_singleton.1 hmem]
      rfl
    · simp at hmem

theorem filter_isPayload_views (packet : Packet) (members : MemberSet) (id : MemberId) :
    (packet.views members id).filter (·.1.isPayload) = (packet.receipt members id).toList := by
  obtain ⟨sender, action⟩ := packet
  cases action with
  | raw payload recipients =>
      simp only [views, share, receipt]
      split
      · rename_i hmem
        simp [Standing.forecast, Notice.landing, MemberSet.seenBy_of_mem hmem.2, Notice.isPayload]
      · simp [Standing.forecast]
  | control change =>
      apply List.filter_eq_nil_iff.2
      intro entry hentry
      have hmem : entry.1 ∈ members.announcements
          (membersAfter ⟨sender, .control change⟩ members) id := by
        have hfst := List.mem_map_of_mem (f := Prod.fst) hentry
        rwa [views, Standing.forecast_map_fst] at hfst
      simp [not_isPayload_of_mem_announcements hmem]

theorem eq_of_mem_views {payload : Bytes} {standing : Standing}
    (hmem : (.raw payload sender, standing) ∈ packet.views members id) :
    standing = some members ∧ id ∈ members ∧ sender ∈ members ∧
      ∃ recipients, packet = ⟨sender, .raw payload recipients⟩ := by
  have hreceipt : packet.receipt members id = some (.raw payload sender, standing) := by
    rw [← Option.mem_toList, ← filter_isPayload_views]
    exact List.mem_filter.2 ⟨hmem, rfl⟩
  obtain ⟨source, action⟩ := packet
  cases action with
  | control change => simp [receipt] at hreceipt
  | raw text recipients =>
      simp only [receipt, Option.ite_none_right_eq_some, Option.some.injEq, Prod.mk.injEq,
        Notice.raw.injEq] at hreceipt
      obtain ⟨⟨hsource, hid⟩, ⟨rfl, rfl⟩, rfl⟩ := hreceipt
      exact ⟨rfl, hid, hsource, recipients, rfl⟩

end Packet

namespace Server

/-- The payloads that a member was given, and whom it saw in the group then. -/
def receipts (id : MemberId) (record : List Occurrence) : List (Notice × Standing) :=
  (deliveries id record).filter (·.1.isPayload)

theorem forecast_empty (id : MemberId) : ({} : Server).forecast id = [] := rfl

theorem history_of_run (moves : List Move) (id : MemberId) :
    deliveries id (record {} moves) ++ (run {} moves).forecast id =
      (settlements (record {} moves)).flatMap fun entry => entry.2.views entry.1 id := by
  have hhistory := deliveries_append_forecast consistent_empty moves id
  rwa [forecast_empty, List.nil_append] at hhistory

theorem receipts_isPrefixOf (moves : List Move) (id : MemberId) :
    receipts id (record {} moves) <+:
      (settlements (record {} moves)).filterMap fun entry => entry.2.receipt entry.1 id := by
  have hhistory := congrArg (List.filter (·.1.isPayload)) (history_of_run moves id)
  rw [List.filter_append, List.filter_flatMap] at hhistory
  simp only [Packet.filter_isPayload_views] at hhistory
  rw [List.filterMap_eq_flatMap_toList, ← hhistory]
  exact List.prefix_append _ _

theorem exists_settlement_of_mem_history {moves : List Move} {id sender : MemberId}
    {payload : Bytes} {standing : Standing}
    (hmem : (.raw payload sender, standing) ∈
      deliveries id (record {} moves) ++ (run {} moves).forecast id) :
    ∃ members recipients, standing = some members ∧ id ∈ members ∧ sender ∈ members ∧
      (members, ⟨sender, .raw payload recipients⟩) ∈ settlements (record {} moves) := by
  rw [history_of_run] at hmem
  obtain ⟨⟨members, packet⟩, hsettled, hviews⟩ := List.mem_flatMap.1 hmem
  obtain ⟨hstanding, hid, hsender, recipients, rfl⟩ := Packet.eq_of_mem_views hviews
  exact ⟨members, recipients, hstanding, hid, hsender, hsettled⟩

/-- **View synchrony.** The payloads given to a member are the first of those that were processed
while it belonged to the group, and with each of them it sees the membership of that moment, which
has the sender and the member itself in it. In particular no payload finds its channel outside. -/
theorem payloads_arrive_under_their_membership (moves : List Move) (id : MemberId) :
    receipts id (record {} moves) <+:
        (settlements (record {} moves)).filterMap (fun entry => entry.2.receipt entry.1 id) ∧
      (∀ payload sender standing,
        (.raw payload sender, standing) ∈ deliveries id (record {} moves) →
        ∃ members recipients, standing = some members ∧ id ∈ members ∧ sender ∈ members ∧
          (members, ⟨sender, .raw payload recipients⟩) ∈ settlements (record {} moves)) ∧
      ∀ payload sender rest, (run {} moves).queue id = .raw payload sender :: rest →
        ∃ channel members recipients, (run {} moves).channel? id = some channel ∧
          channel.standing = some members ∧ id ∈ members ∧ sender ∈ members ∧
          (members, ⟨sender, .raw payload recipients⟩) ∈ settlements (record {} moves) ∧
          channel.publishes (.raw payload sender) = true := by
  refine ⟨receipts_isPrefixOf moves id, ?_, ?_⟩
  · intro payload sender standing hmem
    exact exists_settlement_of_mem_history (List.mem_append_left _ hmem)
  · intro payload sender rest hqueue
    have hnext : (.raw payload sender, (run {} moves).standing id) ∈
        (run {} moves).forecast id := by
      simp [forecast, hqueue, Standing.forecast, Notice.landing]
    obtain ⟨members, recipients, hstanding, hid, hsender, hsettled⟩ :=
      exists_settlement_of_mem_history (List.mem_append_right _ hnext)
    have hchannel : (run {} moves).channel? id = some ((run {} moves).mailbox id).channel := by
      rw [channel?, mailbox?_of_queue_eq_cons hqueue]
      rfl
    have hseen : ((run {} moves).mailbox id).channel.standing = some members := by
      rw [← standing_eq, hstanding]
    refine ⟨_, members, recipients, hchannel, hseen, hid, hsender, hsettled, ?_⟩
    simp [Channel.publishes, Channel.isJoined, hseen]

/-- The payloads that two members both get, in the order of processing. -/
def commonReceipts (first second : MemberId) (record : List Occurrence) :
    List (Notice × Standing) :=
  (settlements record).filterMap fun entry =>
    if second ∈ entry.1 then entry.2.receipt entry.1 first else none

theorem commonReceipts_comm (first second : MemberId) (record : List Occurrence) :
    commonReceipts first second record = commonReceipts second first record := by
  apply List.filterMap_congr
  intro entry _
  obtain ⟨members, sender, action⟩ := entry
  cases action with
  | control change => simp [Packet.receipt]
  | raw payload recipients =>
      by_cases hfirst : first ∈ members <;> by_cases hsecond : second ∈ members <;>
        simp [Packet.receipt, hfirst, hsecond]

theorem filter_receipts_isPrefixOf (moves : List Move) (first second : MemberId) :
    (receipts first (record {} moves)).filter (·.2.includes second) <+:
      commonReceipts first second (record {} moves) := by
  have hcommon : commonReceipts first second (record {} moves) =
      ((settlements (record {} moves)).filterMap fun entry =>
        entry.2.receipt entry.1 first).filter (·.2.includes second) := by
    rw [List.filter_filterMap]
    apply List.filterMap_congr
    intro entry _
    obtain ⟨members, sender, action⟩ := entry
    cases action with
    | control change => simp [Packet.receipt]
    | raw payload recipients =>
        by_cases hmem : sender ∈ members ∧ first ∈ members <;>
          by_cases hsecond : second ∈ members <;>
          simp [Packet.receipt, hmem, hsecond, Standing.includes, Option.filter]
  rw [hcommon]
  exact (receipts_isPrefixOf moves first).filter _

/-- **Exactly once and in one order.** What a member was given, followed by what waits for it, is its
share of every packet that was processed, in the order of processing. Of the payloads that two
members get while they see each other, one has got the first ones of those that the other has got. -/
theorem deliveries_append_queue (moves : List Move) :
    (∀ id, (deliveries id (record {} moves)).map Prod.fst ++ (run {} moves).queue id =
        (settlements (record {} moves)).flatMap fun entry => entry.2.share entry.1 id) ∧
      ∀ first second,
        (receipts first (record {} moves)).filter (·.2.includes second) <+:
            (receipts second (record {} moves)).filter (·.2.includes first) ∨
          (receipts second (record {} moves)).filter (·.2.includes first) <+:
            (receipts first (record {} moves)).filter (·.2.includes second) := by
  constructor
  · intro id
    have hhistory := congrArg (List.map Prod.fst) (history_of_run moves id)
    rw [List.map_append, List.map_flatMap] at hhistory
    simpa only [forecast, Packet.views, Standing.forecast_map_fst] using hhistory
  · intro first second
    have hfirst := filter_receipts_isPrefixOf moves first second
    have hsecond := filter_receipts_isPrefixOf moves second first
    rw [commonReceipts_comm] at hsecond
    exact List.prefix_or_prefix_of_prefix hfirst hsecond

end Server

end GroupChat
