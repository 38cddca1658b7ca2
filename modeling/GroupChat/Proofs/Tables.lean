import GroupChat.Depot
import GroupChat.Proofs.Step

/-!
# Two tables

A server of mailboxes is split into a table of channels and one of queues. Main statements: working on the two
tables of a split server comes to what the server does, and the tables after it are those of the server after
it. Both have the same keys then, and no queue is ever missing.
-/

namespace GroupChat

namespace Depot.Work

variable {α β : Type} {work : Work α} {rest : α → Work β} {depot next : Depot} {value : α}
  {error : DepotError}

theorem run_bind (work : Work α) (rest : α → Work β) (depot : Depot) :
    (work >>= rest).run depot = ExceptT.bindCont rest (work.run depot).1 (work.run depot).2 := rfl

theorem run_bind_of_ok (hwork : work.run depot = (.ok value, next)) :
    (work >>= rest).run depot = (rest value).run next := by
  rw [run_bind, hwork]
  rfl

theorem run_bind_of_error (hwork : work.run depot = (.error error, next)) :
    (work >>= rest).run depot = (.error error, next) := by
  rw [run_bind, hwork]
  rfl

theorem run_set_bind {rest : Unit → Work β} : (set next >>= rest).run depot = (rest ()).run next := rfl

theorem run_get_bind {rest : Depot → Work β} : (get >>= rest).run depot = (rest depot).run depot := rfl

end Depot.Work

/-! ### The tables of a server -/

namespace Server

/-- The channels and the queues of the mailboxes, each in a table of their own. -/
def split (server : Server) : Depot where
  members := server.members
  incoming := server.incoming
  channels := server.mailboxes.map Mailbox.channel
  queues := server.mailboxes.map Mailbox.queue

variable {server : Server} {id : MemberId} {mailbox : Mailbox} {notice : Notice}

theorem get?_channels_split (server : Server) (id : MemberId) :
    server.split.channels.get? id = server.channel? id :=
  Directory.get?_map Mailbox.channel server.mailboxes id

theorem get?_queues_split (server : Server) (id : MemberId) :
    server.split.queues.get? id = (server.mailbox? id).map Mailbox.queue :=
  Directory.get?_map Mailbox.queue server.mailboxes id

theorem queue_split (server : Server) (id : MemberId) : server.split.queue id = server.queue id :=
  congrArg (Option.getD · []) (server.get?_queues_split id)

theorem eq_split {depot : Depot} (hmembers : depot.members = server.members)
    (hincoming : depot.incoming = server.incoming)
    (hchannels : ∀ id, depot.channels.get? id = server.channel? id)
    (hqueues : ∀ id, depot.queues.get? id = (server.mailbox? id).map Mailbox.queue) :
    depot = server.split := by
  have hchannels' : depot.channels = server.split.channels :=
    Directory.eq_of_get? fun id => (hchannels id).trans (server.get?_channels_split id).symm
  have hqueues' : depot.queues = server.split.queues :=
    Directory.eq_of_get? fun id => (hqueues id).trans (server.get?_queues_split id).symm
  cases depot
  cases hmembers
  cases hincoming
  cases hchannels'
  cases hqueues'
  rfl

theorem split_openMailbox (hnone : server.mailbox? id = none) :
    { server.split with
      queues := server.split.queues.set id (server.split.queue id)
      channels := server.split.channels.set id (Mailbox.fresh id).channel } =
      (server.openMailbox id).split := by
  have hmailbox (other : MemberId) : (server.openMailbox id).mailbox? other =
      if other = id then some (.fresh id) else server.mailbox? other := by
    rw [mailbox?_openMailbox, mailbox, hnone, Option.getD_none]
  refine eq_split (members_openMailbox server id).symm (incoming_openMailbox server id).symm ?_ ?_
  · intro other
    rw [Directory.get?_set, get?_channels_split, channel?, channel?, hmailbox]
    split <;> rfl
  · intro other
    rw [Directory.get?_set, get?_queues_split, hmailbox, queue_split, queue, hnone]
    split <;> rfl

theorem split_setQueue (hmailbox : server.mailbox? id = some mailbox) (queue : List Notice) :
    { server.split with queues := server.split.queues.set id queue } =
      (server.modifyMailbox id fun mailbox => { mailbox with queue }).split := by
  refine eq_split rfl rfl (fun other => ?_) fun other => ?_
  · rw [get?_channels_split, channel?, channel?, mailbox?_modifyMailbox]
    by_cases heq : other = id
    · rw [if_pos heq, heq, hmailbox]
      rfl
    · rw [if_neg heq]
  · rw [Directory.get?_set, get?_queues_split, mailbox?_modifyMailbox, hmailbox]
    split <;> rfl

theorem split_modifyChannel (server : Server) (id : MemberId) (change : Channel → Channel) :
    { server.split with channels := server.split.channels.modify id change } =
      (server.modifyChannel id change).split := by
  refine eq_split rfl rfl (fun other => ?_) fun other => ?_
  · rw [Directory.get?_modify, get?_channels_split, get?_channels_split, channel?, channel?, channel?,
      modifyChannel, mailbox?_modifyMailbox]
    by_cases heq : other = id
    · rw [if_pos heq, if_pos heq, Option.map_map, Option.map_map]
      rfl
    · rw [if_neg heq, if_neg heq]
  · rw [get?_queues_split, modifyChannel, mailbox?_modifyMailbox]
    by_cases heq : other = id
    · rw [if_pos heq, heq, Option.map_map]
      rfl
    · rw [if_neg heq]

end Server

/-! ### What each operation comes to -/

namespace Depot

variable {server : Server} {id : MemberId} {mailbox : Mailbox} {notice : Notice}

open Work

/-- Wherever a channel is looked up, both tables have an entry afterwards. -/
theorem run_channel (server : Server) (id : MemberId) :
    (channel id).run server.split = (.ok (server.mailbox id).channel, (server.openMailbox id).split) := by
  unfold channel
  rw [run_get_bind, Server.get?_channels_split, Server.channel?]
  cases hmailbox : server.mailbox? id with
  | none =>
      rw [← Server.split_openMailbox hmailbox, Server.mailbox, hmailbox]
      rfl
  | some mailbox =>
      rw [Server.openMailbox, hmailbox, Server.mailbox_of_mailbox? server id hmailbox]
      rfl

theorem run_queueAt (hmailbox : server.mailbox? id = some mailbox) :
    (queueAt id).run server.split = (.ok mailbox.queue, server.split) := by
  unfold queueAt
  rw [run_get_bind, Server.get?_queues_split, hmailbox]
  rfl

theorem run_setQueue (hmailbox : server.mailbox? id = some mailbox) (queue : List Notice) :
    (setQueue id queue).run server.split =
      (.ok (), (server.modifyMailbox id fun mailbox => { mailbox with queue }).split) := by
  rw [← Server.split_setQueue hmailbox]
  rfl

/-- A notice always finds the queue that it is put into. -/
theorem run_enqueue (server : Server) (entry : MemberId × Notice) :
    (enqueue entry).run server.split = (.ok (), (server.post entry).split) := by
  have hmailbox : (server.openMailbox entry.1).mailbox? entry.1 = some (server.mailbox entry.1) := by
    rw [Server.mailbox?_openMailbox, if_pos rfl]
  have hpost : server.post entry = (server.openMailbox entry.1).modifyMailbox entry.1 fun mailbox =>
      { mailbox with queue := (server.mailbox entry.1).queue ++ [entry.2] } := by
    refine Server.modifyMailbox_congr _ _ fun found hfound => ?_
    rw [Option.some.inj (hmailbox.symm.trans hfound)]
  unfold enqueue
  rw [run_bind_of_ok (run_channel server entry.1), run_bind_of_ok (run_queueAt hmailbox),
    run_setQueue hmailbox, hpost]

theorem run_forM_enqueue (server : Server) (entries : List (MemberId × Notice)) :
    (entries.forM enqueue).run server.split = (.ok (), (server.postAll entries).split) := by
  induction entries generalizing server with
  | nil => rfl
  | cons entry rest ih =>
      rw [List.forM, run_bind_of_ok (run_enqueue server entry), ih]
      rfl

theorem run_alter (server : Server) (id : MemberId) (change : Channel → Channel) :
    (alter id change).run server.split = (.ok (), (server.modifyChannel id change).split) := by
  rw [← Server.split_modifyChannel]
  rfl

theorem run_send (server : Server) (id : MemberId) (action : Action) :
    (send id action).run server.split =
      (.ok ((server.mailbox id).channel.uplinks action), (server.step (.send id action)).1.split) := by
  unfold send
  rw [run_bind_of_ok (run_channel server id), Server.step]
  generalize (server.mailbox id).channel = channel
  rw [Channel.uplinks]
  cases hrefusal : channel.refusal? action with
  | some line => cases channel.transport <;> rfl
  | none => cases channel.transport <;> rfl

theorem run_receive_of_error {failure : Failure} {index : Nat}
    (herror : server.receive index = .error failure) :
    (receive index).run server.split = (.error (.failed failure), server.split) := by
  have hincoming : server.split.incoming = server.incoming := rfl
  unfold Server.receive at herror
  unfold receive
  rw [run_get_bind, hincoming]
  cases hpacket : server.incoming[index]? with
  | none =>
      rw [hpacket] at herror
      cases herror
      rfl
  | some packet =>
      rw [hpacket] at herror
      dsimp only at herror ⊢
      split at herror
      · rename_i hearlier
        cases herror
        rw [if_pos hearlier]
        rfl
      -- About a packet that is in order there is always a decision.
      · obtain ⟨entries, lines, hok, -⟩ := Server.settle_eq_ok
          { server with incoming := server.incoming.eraseIdx index } packet
        rw [hok] at herror
        cases herror

theorem run_receive_of_ok {next : Server} {lines : List Log.Line} {index : Nat}
    (hok : server.receive index = .ok (next, lines)) :
    (receive index).run server.split = (.ok lines, next.split) := by
  have hincoming : server.split.incoming = server.incoming := rfl
  have hmembers : server.split.members = server.members := rfl
  unfold Server.receive at hok
  unfold receive
  rw [run_get_bind, hincoming]
  cases hpacket : server.incoming[index]? with
  | none =>
      rw [hpacket] at hok
      cases hok
  | some packet =>
      rw [hpacket] at hok
      dsimp only at hok ⊢
      split at hok
      · cases hok
      · rename_i hearlier
        obtain ⟨entries, more, hrule, -⟩ := Server.rule_eq_ok server.members packet
        rw [Server.settle, hrule] at hok
        cases hok
        rw [if_neg hearlier, hmembers, hrule, run_set_bind]
        exact run_bind_of_ok (run_forM_enqueue
          { server with
            members := packet.membersAfter server.members
            incoming := server.incoming.eraseIdx index } entries)

theorem run_take_of_nil (hqueue : server.queue id = []) :
    ∃ error, (take id).run server.split = (.error (.failed (.request error)), server.split) := by
  unfold take
  rw [run_get_bind, Server.get?_channels_split, Server.channel?]
  cases hmailbox : server.mailbox? id with
  | none => exact ⟨_, rfl⟩
  | some mailbox =>
      rw [Server.queue, hmailbox] at hqueue
      have hempty : mailbox.queue = [] := hqueue
      refine ⟨.noNoticesFor id, (run_bind_of_ok (run_queueAt hmailbox)).trans ?_⟩
      rw [hempty]
      rfl

theorem run_take_of_cons {rest : List Notice} (hqueue : server.queue id = notice :: rest) :
    (take id).run server.split =
      (.ok notice, (server.modifyMailbox id fun mailbox => { mailbox with queue := rest }).split) := by
  have hmailbox := Server.mailbox?_of_queue_eq_cons hqueue
  rw [Server.queue_eq] at hqueue
  unfold take
  rw [run_get_bind, Server.get?_channels_split, Server.channel?, hmailbox]
  refine (run_bind_of_ok (run_queueAt hmailbox)).trans ?_
  rw [hqueue]
  exact run_bind_of_ok (run_setQueue hmailbox rest)

theorem run_hear_of_none (hchannel : server.channel? id = none) :
    (hear id notice).run server.split = (.ok (), server.split) := by
  unfold hear
  rw [run_get_bind, Server.get?_channels_split, hchannel]
  rfl

theorem run_hear_of_error {channel : Channel} {failure : Failure}
    (hchannel : server.channel? id = some channel) (herror : channel.absorb notice = .error failure) :
    (hear id notice).run server.split = (.error (.failed failure), server.split) := by
  unfold hear
  rw [run_get_bind, Server.get?_channels_split, hchannel]
  dsimp only
  rw [herror]
  rfl

theorem run_hear_of_ok {channel next : Channel} {line : Log.Line}
    (hchannel : server.channel? id = some channel) (hok : channel.absorb notice = .ok (next, line)) :
    (hear id notice).run server.split = (.ok (), (server.modifyChannel id fun _ => next).split) := by
  have hentry : server.split.channels.get? id = some channel :=
    (server.get?_channels_split id).trans hchannel
  have hset : server.split.channels.set id next = server.split.channels.modify id fun _ => next := by
    rw [Directory.modify, hentry]
  unfold hear
  rw [run_get_bind, hentry]
  dsimp only
  rw [hok, ← Server.split_modifyChannel, ← hset]
  rfl

theorem run_deliverTo_of_nil (hqueue : server.queue id = []) :
    ∃ error, (deliverTo id).run server.split = (.error (.failed (.request error)), server.split) := by
  obtain ⟨error, htake⟩ := run_take_of_nil hqueue
  exact ⟨error, run_bind_of_error htake⟩

/-- A notice that waits is taken, and heard by the channel that was there before. -/
theorem run_deliverTo_of_cons {rest : List Notice} (hqueue : server.queue id = notice :: rest) :
    ∃ taken : Server, taken.channel? id = some (server.mailbox id).channel ∧
      (deliverTo id).run server.split = (hear id notice).run taken.split := by
  have hmailbox := Server.mailbox?_of_queue_taken hqueue
  refine ⟨_, ?_, run_bind_of_ok (run_take_of_cons hqueue)⟩
  rw [Server.channel?, hmailbox]
  rfl

end Depot

/-! ### Members and their mailboxes -/

/-- Whoever a packet brings in is told something, and so gets a mailbox unless there is one. -/
theorem Packet.share_ne_nil {packet : Packet} {members : MemberSet} {id : MemberId}
    (hafter : id ∈ packet.membersAfter members) (hbefore : id ∉ members) :
    packet.share members id ≠ [] := by
  cases hpacket : packet.action with
  | raw payload recipients =>
      rw [Packet.membersAfter, hpacket] at hafter
      exact absurd hafter hbefore
  | control change =>
      rw [Packet.share, hpacket]
      dsimp only
      rw [MemberSet.announcements, if_pos hafter, if_neg hbefore]
      exact List.cons_ne_nil _ _

namespace Server

variable {server next : Server} {id : MemberId}

/-- Every member has a mailbox. -/
def Housed (server : Server) : Prop := ∀ id ∈ server.members, (server.mailbox? id).isSome = true

theorem Housed.of_isSome (hhoused : server.Housed) (hmembers : next.members = server.members)
    (hsome : ∀ id, (server.mailbox? id).isSome = true → (next.mailbox? id).isSome = true) : next.Housed :=
  fun id hid => hsome id (hhoused id (hmembers ▸ hid))

theorem Housed.openMailbox (hhoused : server.Housed) (id : MemberId) : (server.openMailbox id).Housed := by
  refine hhoused.of_isSome (members_openMailbox server id) fun other hsome => ?_
  rw [mailbox?_openMailbox]
  split
  · rfl
  · exact hsome

theorem Housed.modifyMailbox (hhoused : server.Housed) (id : MemberId) (change : Mailbox → Mailbox) :
    (server.modifyMailbox id change).Housed := by
  refine hhoused.of_isSome rfl fun other hsome => ?_
  rw [mailbox?_modifyMailbox]
  split
  · rename_i heq
    rw [Option.isSome_map, ← heq]
    exact hsome
  · exact hsome

theorem Housed.receive (hhoused : server.Housed) {index : Nat} {lines : List Log.Line}
    (hok : server.receive index = .ok (next, lines)) : next.Housed := by
  rcases server.receive_cases index with ⟨error, herror⟩ | ⟨packet, entries, more, -, hreceive, hnews⟩
  · rw [herror] at hok
    cases hok
  · rw [hreceive] at hok
    cases hok
    intro id hid
    rw [members_postAll] at hid
    rw [mailbox?_postAll, hnews id]
    split
    · rename_i hnone
      by_contra hmissing
      exact Packet.share_ne_nil hid (fun hbefore => hmissing (hhoused id hbefore)) hnone
    · rfl

theorem housed_empty : ({} : Server).Housed := fun _ hid => absurd hid (MemberSet.not_mem_empty _)

end Server

/-! ### Runs of calls -/

namespace Depot

variable {α β : Type} {server : Server} {id : MemberId}

open Work

/-- The tables are those of a server again, in which every member has a mailbox if it had one before. If there
is an error at all, then it is no missing queue. -/
inductive Orderly (server : Server) : Except DepotError α × Depot → Prop
  | ok (value : α) (next : Server) (hhoused : server.Housed → next.Housed) :
      Orderly server (.ok value, next.split)
  | failed (failure : Failure) (next : Server) (hhoused : server.Housed → next.Housed) :
      Orderly server (.error (.failed failure), next.split)

theorem Orderly.after {next : Server} {result : Except DepotError α × Depot}
    (hnext : server.Housed → next.Housed) (horderly : Orderly next result) : Orderly server result := by
  cases horderly with
  | ok value final hfinal => exact .ok value final fun hhoused => hfinal (hnext hhoused)
  | failed failure final hfinal => exact .failed failure final fun hhoused => hfinal (hnext hhoused)

theorem Orderly.exists_split {result : Except DepotError α × Depot} (horderly : Orderly server result) :
    ∃ next : Server, result.2 = next.split ∧ (server.Housed → next.Housed) := by
  cases horderly with
  | ok value next hhoused => exact ⟨next, rfl, hhoused⟩
  | failed failure next hhoused => exact ⟨next, rfl, hhoused⟩

theorem Orderly.ne_missingQueue {result : Except DepotError α × Depot} (horderly : Orderly server result)
    (id : MemberId) : result.1 ≠ .error (.missingQueue id) := by
  cases horderly with
  | ok value next hhoused => exact nofun
  | failed failure next hhoused => exact nofun

theorem Orderly.bind {work : Work α} {rest : α → Work β} (hwork : Orderly server (work.run server.split))
    (hrest : ∀ value (next : Server), Orderly next ((rest value).run next.split)) :
    Orderly server ((work >>= rest).run server.split) := by
  generalize hresult : work.run server.split = result at hwork
  cases hwork with
  | ok value next hnext =>
      rw [run_bind_of_ok hresult]
      exact (hrest value next).after hnext
  | failed failure next hnext =>
      rw [run_bind_of_error hresult]
      exact .failed failure next hnext

theorem Orderly.discard {work : Work α} (hwork : Orderly server (work.run server.split)) :
    Orderly server ((do let _ ← work : Work Unit).run server.split) :=
  hwork.bind fun _ next => .ok () next fun hhoused => hhoused

theorem orderly_channel (server : Server) (id : MemberId) :
    Orderly server ((channel id).run server.split) := by
  rw [run_channel]
  exact .ok _ _ fun hhoused => hhoused.openMailbox id

theorem orderly_send (server : Server) (id : MemberId) (action : Action) :
    Orderly server ((send id action).run server.split) := by
  rw [run_send]
  refine .ok _ _ fun hhoused => ?_
  have hopen := hhoused.openMailbox id
  rw [Server.step]
  split
  · exact hopen
  · exact hopen

theorem orderly_receive (server : Server) (index : Nat) :
    Orderly server ((receive index).run server.split) := by
  cases hreceive : server.receive index with
  | error failure =>
      rw [run_receive_of_error hreceive]
      exact .failed failure server fun hhoused => hhoused
  | ok received =>
      rw [run_receive_of_ok hreceive]
      exact .ok received.2 received.1 fun hhoused => hhoused.receive hreceive

theorem orderly_take (server : Server) (id : MemberId) : Orderly server ((take id).run server.split) := by
  cases hqueue : server.queue id with
  | nil =>
      obtain ⟨error, herror⟩ := run_take_of_nil hqueue
      rw [herror]
      exact .failed _ server fun hhoused => hhoused
  | cons notice rest =>
      rw [run_take_of_cons hqueue]
      exact .ok notice _ fun hhoused => hhoused.modifyMailbox id _

theorem orderly_hear (server : Server) (id : MemberId) (notice : Notice) :
    Orderly server ((hear id notice).run server.split) := by
  cases hchannel : server.channel? id with
  | none =>
      rw [run_hear_of_none hchannel]
      exact .ok () server fun hhoused => hhoused
  | some channel =>
      cases habsorb : channel.absorb notice with
      | error failure =>
          rw [run_hear_of_error hchannel habsorb]
          exact .failed failure server fun hhoused => hhoused
      | ok heard =>
          rw [run_hear_of_ok hchannel habsorb]
          exact .ok () _ fun hhoused => hhoused.modifyMailbox id _

theorem orderly_deliverTo (server : Server) (id : MemberId) :
    Orderly server ((deliverTo id).run server.split) :=
  (orderly_take server id).bind fun notice next => orderly_hear next id notice

theorem target?_split (server : Server) : server.split.target? = server.target? := by
  unfold target? Server.target? Directory.largest? Server.split Directory.map
  rw [List.foldl_map]

/-- Whatever is asked for, the two tables stay in step. -/
theorem orderly_perform (server : Server) (call : Call) : Orderly server (call.perform.run server.split) := by
  cases call with
  | channel id => exact (orderly_channel server id).discard
  | alter id change =>
      rw [Call.perform, run_alter]
      exact .ok _ _ fun hhoused => hhoused.modifyMailbox id _
  | send id action => exact (orderly_send server id action).discard
  | receive index => exact (orderly_receive server index).discard
  | take id => exact (orderly_take server id).discard
  | hear id notice => exact orderly_hear server id notice
  | deliver target =>
      cases target with
      | some id => exact orderly_deliverTo server id
      | none =>
          rw [Call.perform, deliver, run_get_bind]
          cases server.split.target? with
          | none => exact .failed _ server fun hhoused => hhoused
          | some id => exact orderly_deliverTo server id

/-- However many calls there were, the tables are those of a server in which every member has a mailbox. -/
theorem exists_split_after {server : Server} (hhoused : server.Housed) (calls : List Call) :
    ∃ next : Server, server.split.after calls = next.split ∧ next.Housed := by
  induction calls generalizing server with
  | nil => exact ⟨server, rfl, hhoused⟩
  | cons call calls ih =>
      obtain ⟨next, hnext, hkeeps⟩ := (orderly_perform server call).exists_split
      rw [after, hnext]
      exact ih (hkeeps hhoused)

end Depot

end GroupChat
