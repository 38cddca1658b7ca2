import GroupChat.Proofs.Largest
import GroupChat.Server
import Mathlib.Logic.Function.Basic

/-!
# Mailboxes

What each operation of a server does to the mailbox of every member. Posting only ever appends to
queues: `mailbox?_postAll` says that a member's mailbox takes what is addressed to it, in order, and
is made on the way if it has to be.
-/

namespace GroupChat

namespace Mailbox

/-- What a member that has no mailbox yet is given. -/
def fresh (id : MemberId) : Mailbox := { channel := { owner := id, transport := .uplink } }

def push (mailbox : Mailbox) (news : List Notice) : Mailbox :=
  { mailbox with queue := mailbox.queue ++ news }

theorem push_push (mailbox : Mailbox) (first second : List Notice) :
    (mailbox.push first).push second = mailbox.push (first ++ second) := by
  simp [push]

end Mailbox

namespace Server

variable (server : Server) (id other : MemberId)

def standing (server : Server) (id : MemberId) : Standing :=
  (server.channel? id).bind Channel.standing

/-- The mailbox of a member, or the one that it would be given. -/
def mailbox (server : Server) (id : MemberId) : Mailbox :=
  (server.mailbox? id).getD (.fresh id)

theorem mailbox_of_mailbox? {mailbox : Mailbox} (hsome : server.mailbox? id = some mailbox) :
    server.mailbox id = mailbox := by
  rw [Server.mailbox, hsome, Option.getD_some]

theorem queue_eq : server.queue id = (server.mailbox id).queue := by
  unfold queue mailbox
  cases server.mailbox? id <;> rfl

theorem standing_eq : server.standing id = (server.mailbox id).channel.standing := by
  unfold standing channel? mailbox
  cases server.mailbox? id <;> rfl

theorem mailbox?_openMailbox :
    (server.openMailbox id).mailbox? other =
      if other = id then some (server.mailbox id) else server.mailbox? other := by
  unfold openMailbox mailbox
  cases hmailbox : server.mailbox? id with
  | none =>
      rw [Option.getD_none]
      exact Directory.get?_set server.mailboxes id (.fresh id) other
  | some mailbox =>
      by_cases heq : other = id
      · simp [heq, hmailbox]
      · simp [heq]

theorem mailbox?_modifyMailbox (change : Mailbox → Mailbox) :
    (server.modifyMailbox id change).mailbox? other =
      if other = id then (server.mailbox? id).map change else server.mailbox? other :=
  Directory.get?_modify server.mailboxes id change other

@[simp]
theorem mailbox_openMailbox : (server.openMailbox id).mailbox = server.mailbox := by
  funext other
  unfold mailbox
  rw [mailbox?_openMailbox]
  by_cases heq : other = id
  · subst heq
    rw [if_pos rfl, Option.getD_some, mailbox]
  · rw [if_neg heq]

@[simp]
theorem queue_openMailbox : (server.openMailbox id).queue = server.queue := by
  funext other
  rw [queue_eq, queue_eq, mailbox_openMailbox]

@[simp]
theorem standing_openMailbox : (server.openMailbox id).standing = server.standing := by
  funext other
  rw [standing_eq, standing_eq, mailbox_openMailbox]

theorem channel_mailbox {channel : Channel} (hchannel : server.channel? id = some channel) :
    (server.mailbox id).channel = channel := by
  obtain ⟨mailbox, hmailbox, rfl⟩ := Option.map_eq_some_iff.1 hchannel
  rw [mailbox_of_mailbox? server id hmailbox]

theorem openMailbox_of_channel? {channel : Channel}
    (hchannel : server.channel? id = some channel) :
    server.openMailbox id = server := by
  obtain ⟨mailbox, hmailbox, -⟩ := Option.map_eq_some_iff.1 hchannel
  rw [openMailbox, hmailbox]

theorem channel?_openMailbox :
    (server.openMailbox id).channel? id = some (server.mailbox id).channel := by
  rw [channel?, mailbox?_openMailbox, if_pos rfl]
  rfl

theorem modifyMailbox_of_eq_none {change : Mailbox → Mailbox} (hnone : server.mailbox? id = none) :
    server.modifyMailbox id change = server := by
  have hget : server.mailboxes.get? id = none := hnone
  simp [modifyMailbox, Directory.modify, hget]

theorem mailbox_modifyMailbox {mailbox : Mailbox} (hsome : server.mailbox? id = some mailbox)
    (change : Mailbox → Mailbox) :
    (server.modifyMailbox id change).mailbox =
      Function.update server.mailbox id (change mailbox) := by
  funext other
  rw [Server.mailbox, mailbox?_modifyMailbox]
  by_cases heq : other = id
  · subst heq
    simp [hsome]
  · simp [heq, Server.mailbox]

theorem eq_of_mailbox? {first second : Server} (hmembers : first.members = second.members)
    (hincoming : first.incoming = second.incoming)
    (hmailbox : ∀ id, first.mailbox? id = second.mailbox? id) : first = second := by
  have hmailboxes : first.mailboxes = second.mailboxes := Directory.eq_of_get? hmailbox
  cases first
  cases second
  simp_all only

theorem modifyMailbox_congr {change change' : Mailbox → Mailbox}
    (hsame : ∀ mailbox, server.mailbox? id = some mailbox → change mailbox = change' mailbox) :
    server.modifyMailbox id change = server.modifyMailbox id change' := by
  refine eq_of_mailbox? rfl rfl fun other => ?_
  rw [mailbox?_modifyMailbox, mailbox?_modifyMailbox]
  cases hmailbox : server.mailbox? id with
  | none => rfl
  | some mailbox => rw [Option.map_some, Option.map_some, hsame mailbox hmailbox]

theorem modifyMailbox_self : server.modifyMailbox id (fun mailbox => mailbox) = server := by
  refine eq_of_mailbox? rfl rfl fun other => ?_
  rw [mailbox?_modifyMailbox, Option.map_id']
  split
  · rename_i heq
    rw [heq]
  · rfl

theorem modifyMailbox_modifyMailbox (change change' : Mailbox → Mailbox) :
    (server.modifyMailbox id change).modifyMailbox id change' =
      server.modifyMailbox id fun mailbox => change' (change mailbox) := by
  refine eq_of_mailbox? rfl rfl fun other => ?_
  simp only [mailbox?_modifyMailbox, if_true, Option.map_map]
  split
  · rfl
  · rfl

/-- Changing a channel that is not there has no effect, so it must not have one on a new channel
either. -/
theorem channel_modifyChannel {change : Channel → Channel}
    (hnone : server.mailbox? id = none →
      change (Mailbox.fresh id).channel = (Mailbox.fresh id).channel) :
    ((server.modifyChannel id change).mailbox other).channel =
      if other = id then change (server.mailbox other).channel
      else (server.mailbox other).channel := by
  unfold modifyChannel
  cases hmailbox : server.mailbox? id with
  | none =>
      rw [modifyMailbox_of_eq_none server id hmailbox]
      by_cases heq : other = id
      · subst heq
        rw [if_pos rfl, mailbox, hmailbox, Option.getD_none, hnone hmailbox]
      · rw [if_neg heq]
  | some mailbox =>
      have hown := mailbox_of_mailbox? server id hmailbox
      rw [mailbox_modifyMailbox server id hmailbox]
      by_cases heq : other = id
      · subst heq
        rw [Function.update_self, if_pos rfl, hown]
      · rw [Function.update_of_ne heq, if_neg heq]

theorem channel?_modifyChannel (change : Channel → Channel) :
    (server.modifyChannel id change).channel? id = (server.channel? id).map change := by
  rw [channel?, modifyChannel, mailbox?_modifyMailbox, if_pos rfl, Option.map_map, channel?,
    Option.map_map]
  rfl

@[simp]
theorem queue_modifyChannel (change : Channel → Channel) :
    (server.modifyChannel id change).queue = server.queue := by
  funext other
  unfold queue modifyChannel
  rw [mailbox?_modifyMailbox]
  by_cases heq : other = id
  · subst heq
    rw [if_pos rfl, Option.map_map]
    rfl
  · rw [if_neg heq]

theorem standing_modifyChannel {change : Channel → Channel}
    (hchange : ∀ channel, (change channel).standing = channel.standing) :
    (server.modifyChannel id change).standing = server.standing := by
  funext other
  unfold standing channel? modifyChannel
  rw [mailbox?_modifyMailbox]
  by_cases heq : other = id
  · subst heq
    rw [if_pos rfl]
    cases server.mailbox? other with
    | none => rfl
    | some mailbox => exact hchange mailbox.channel
  · rw [if_neg heq]

@[simp]
theorem members_openMailbox : (server.openMailbox id).members = server.members := by
  unfold openMailbox
  cases server.mailbox? id <;> rfl

@[simp]
theorem incoming_openMailbox : (server.openMailbox id).incoming = server.incoming := by
  unfold openMailbox
  cases server.mailbox? id <;> rfl

theorem mailbox?_post (entry : MemberId × Notice) :
    (server.post entry).mailbox? other =
      if other = entry.1 then some ((server.mailbox other).push [entry.2])
      else server.mailbox? other := by
  unfold post
  rw [mailbox?_modifyMailbox, mailbox?_openMailbox, mailbox?_openMailbox, if_pos rfl]
  by_cases heq : other = entry.1
  · subst heq
    rw [if_pos rfl, if_pos rfl]
    rfl
  · rw [if_neg heq, if_neg heq, if_neg heq]

/-- What of a list of addressed notices is meant for a member. -/
def newsFor (id : MemberId) (entries : List (MemberId × Notice)) : List Notice :=
  entries.filterMap fun entry => if entry.1 = id then some entry.2 else none

theorem newsFor_append (first second : List (MemberId × Notice)) :
    newsFor id (first ++ second) = newsFor id first ++ newsFor id second :=
  List.filterMap_append

theorem newsFor_cons (entry : MemberId × Notice) (entries : List (MemberId × Notice)) :
    newsFor id (entry :: entries) =
      if id = entry.1 then entry.2 :: newsFor id entries else newsFor id entries := by
  by_cases heq : id = entry.1
  · simp [newsFor, heq]
  · simp [newsFor, heq, Ne.symm heq]

theorem newsFor_map (news : List Notice) :
    newsFor id (news.map (other, ·)) = if id = other then news else [] := by
  induction news with
  | nil => simp [newsFor]
  | cons notice rest ih =>
      rw [List.map_cons, newsFor_cons, ih]
      by_cases heq : id = other <;> simp [heq]

theorem mailbox?_postAll (entries : List (MemberId × Notice)) :
    (server.postAll entries).mailbox? id =
      if newsFor id entries = [] then server.mailbox? id
      else some ((server.mailbox id).push (newsFor id entries)) := by
  induction entries generalizing server with
  | nil => rfl
  | cons entry rest ih =>
      change ((server.post entry).postAll rest).mailbox? id = _
      rw [ih, newsFor_cons, mailbox?_post]
      by_cases heq : id = entry.1
      · have hmailbox : (server.post entry).mailbox id = (server.mailbox id).push [entry.2] := by
          rw [mailbox, mailbox?_post, if_pos heq, Option.getD_some]
        rw [if_pos heq, if_pos heq, if_neg (List.cons_ne_nil _ _), hmailbox, Mailbox.push_push]
        by_cases hrest : newsFor id rest = []
        · rw [if_pos hrest, hrest]
        · rw [if_neg hrest]
          rfl
      · have hmailbox : (server.post entry).mailbox id = server.mailbox id := by
          rw [mailbox, mailbox?_post, if_neg heq, mailbox]
        rw [if_neg heq, if_neg heq, hmailbox]

theorem mailbox_postAll (entries : List (MemberId × Notice)) :
    (server.postAll entries).mailbox id = (server.mailbox id).push (newsFor id entries) := by
  rw [mailbox, mailbox?_postAll]
  by_cases hnews : newsFor id entries = []
  · rw [if_pos hnews, hnews]
    simp [Mailbox.push, mailbox]
  · rw [if_neg hnews, Option.getD_some]

@[simp]
theorem members_postAll (entries : List (MemberId × Notice)) :
    (server.postAll entries).members = server.members := by
  induction entries generalizing server with
  | nil => rfl
  | cons entry rest ih =>
      change ((server.post entry).postAll rest).members = server.members
      rw [ih]
      exact members_openMailbox server entry.1

@[simp]
theorem incoming_postAll (entries : List (MemberId × Notice)) :
    (server.postAll entries).incoming = server.incoming := by
  induction entries generalizing server with
  | nil => rfl
  | cons entry rest ih =>
      change ((server.post entry).postAll rest).incoming = server.incoming
      rw [ih]
      exact incoming_openMailbox server entry.1

/-- If every item of a list has notices for itself only, a member gets its own ones. -/
theorem newsFor_flatMap {items : List MemberId} (hitems : items.Nodup)
    (news : MemberId → List Notice) :
    newsFor id (items.flatMap fun item => (news item).map (item, ·)) =
      if id ∈ items then news id else [] := by
  induction items with
  | nil => rfl
  | cons item rest ih =>
      obtain ⟨hitem, hrest⟩ := List.nodup_cons.1 hitems
      rw [List.flatMap_cons, newsFor_append, ih hrest, newsFor_map]
      by_cases heq : id = item
      · subst heq
        simp [hitem]
      · simp [heq]

/-- Whoever is to be served next has something waiting. -/
theorem queue_of_target? {server : Server} {id : MemberId} (htarget : server.target? = some id) :
    server.queue id ≠ [] := by
  obtain ⟨mailbox, hmailbox, hpositive, -⟩ := Directory.largest?_eq_some_iff.1 htarget
  rw [queue_eq, mailbox_of_mailbox? server id hmailbox]
  exact List.length_pos_iff.1 hpositive

/-- If nobody is to be served next then nothing waits. -/
theorem queue_of_target?_eq_none {server : Server} (htarget : server.target? = none) (id : MemberId) :
    server.queue id = [] := by
  cases hmailbox : server.mailbox? id with
  | none =>
      rw [queue, hmailbox]
      rfl
  | some mailbox =>
      rw [queue_eq, mailbox_of_mailbox? server id hmailbox]
      exact List.length_eq_zero_iff.1 (Directory.largest?_eq_none_iff.1 htarget id mailbox hmailbox)

end Server

end GroupChat
