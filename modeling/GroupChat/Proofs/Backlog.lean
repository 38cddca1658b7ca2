import GroupChat.Proofs.Step

/-!
# The backlog

How many notices wait in all mailboxes together. Whoever opens a channel or sends leaves the backlog as
it is, and every delivery makes it smaller by one.
-/

namespace GroupChat

namespace Directory

variable {β : Type}

/-- The weights of all values together. -/
def total (weight : β → Nat) (directory : Directory β) : Nat :=
  directory.entries.foldr (fun entry sum => weight entry.2 + sum) 0

theorem foldr_setSorted (weight : β → Nat) (key : MemberId) (value : β)
    {entries : List (MemberId × β)}
    (hentries : entries.Pairwise fun first second => first.1 < second.1) :
    (setSorted key value entries).foldr (fun entry sum => weight entry.2 + sum) 0 +
        ((find? key entries).map weight).getD 0 =
      weight value + entries.foldr (fun entry sum => weight entry.2 + sum) 0 := by
  induction entries with
  | nil => rfl
  | cons head rest ih =>
      obtain ⟨hbelow, hrest⟩ := List.pairwise_cons.1 hentries
      unfold setSorted
      split
      · rename_i hlt
        have hnone : find? key (head :: rest) = none := by
          apply find?_eq_none_of_lt
          intro entry hentry
          rcases List.mem_cons.1 hentry with rfl | hentry
          · exact hlt
          · exact List.lt_trans hlt (hbelow entry hentry)
        rw [hnone]
        rfl
      · split
        · rename_i hlt
          have hne : key ≠ head.1 := by
            rintro rfl
            exact List.lt_irrefl _ hlt
          have hsum := ih hrest
          rw [find?, if_neg hne]
          simp only [List.foldr_cons]
          omega
        · rename_i hnot hnot'
          have heq : key = head.1 := List.le_antisymm (List.not_lt.1 hnot') (List.not_lt.1 hnot)
          rw [find?, if_pos heq]
          simp only [List.foldr_cons, Option.map_some, Option.getD_some]
          omega

/-- A new value counts instead of the one that it replaces. -/
theorem total_set (weight : β → Nat) (directory : Directory β) (key : MemberId) (value : β) :
    (directory.set key value).total weight + ((directory.get? key).map weight).getD 0 =
      weight value + directory.total weight :=
  foldr_setSorted weight key value directory.increasing

end Directory

namespace Server

/-- How many notices wait for all members together. -/
def backlog (server : Server) : Nat := server.mailboxes.total fun mailbox => mailbox.queue.length

variable {server : Server} {id : MemberId}

theorem backlog_modifyMailbox {mailbox : Mailbox} (hmailbox : server.mailbox? id = some mailbox)
    (change : Mailbox → Mailbox) :
    (server.modifyMailbox id change).backlog + mailbox.queue.length =
      (change mailbox).queue.length + server.backlog := by
  have hget : server.mailboxes.get? id = some mailbox := hmailbox
  have htotal := server.mailboxes.total_set (fun mailbox => mailbox.queue.length) id (change mailbox)
  rw [hget] at htotal
  unfold modifyMailbox Directory.modify
  rw [hget]
  exact htotal

/-- Every delivery leaves one notice less. -/
theorem backlog_step_deliver (hqueue : server.queue id ≠ []) :
    (server.step (.deliver id)).1.backlog + 1 = server.backlog := by
  obtain ⟨notice, rest, hcons⟩ := List.exists_cons_of_ne_nil hqueue
  have hmailbox := mailbox?_of_queue_eq_cons hcons
  have hbacklog := backlog_modifyMailbox hmailbox Mailbox.advance
  rw [queue_eq] at hcons
  rw [Mailbox.queue_advance, hcons, List.tail_cons, List.length_cons] at hbacklog
  rw [step_deliver_eq]
  omega

/-- A member opens a channel or sends. -/
def Move.IsRequest : Move → Prop
  | .openChannel _ | .send _ _ => True
  | _ => False

end Server

end GroupChat
