import GroupChat.Proofs.Onlookers
import GroupChat.Session.Limit

/-!
# Schedules

Whoever decides which queue is served next, it makes no difference in the end. Main statement: as long
as subscribers only look on, the same packets are processed in the same order, and everything is
delivered, the server ends in the same state, and every channel has shown the same to its subscribers.
-/

namespace GroupChat

namespace Command

/-- Whether a command processes a packet or delivers notices, and does nothing else. -/
def IsTurn : Command → Prop
  | .receive _ | .deliver _ | .deliverAll => True
  | _ => False

def index? : Command → Option Nat
  | .receive index => some index
  | _ => none

/-- The move that a command asks for, if it is known from the outset. -/
def move? : Command → Option Server.Move
  | .receive index => some (.receive index)
  | .deliver (some id) => some (.deliver id)
  | _ => none

end Command

namespace Session

variable {session next : Session}

theorem exec_ends_of_move? (limit : Nat) (session : Session) (howned : session.server.Owned)
    (hwatched : session.server.Watched) {command : Command} {move : Server.Move}
    (hmove : command.move? = some move) :
    session.Ends (Session.exec (limit + 2) command) fun _ next => session.Turns [move] next := by
  cases command with
  | receive index =>
      cases hmove
      exact receive_ends (limit + 1) session index
  | deliver id =>
      cases id with
      | none => cases hmove
      | some id =>
          cases hmove
          exact deliverTo_ends (exec_calm limit) howned hwatched id
  | _ => cases hmove

/-- Processing and delivering always come to an end. -/
theorem exec_ends (session : Session) (howned : session.server.Owned)
    (hwatched : session.server.Watched) {command : Command} (hcommand : command.IsTurn) :
    ∃ limit, session.Ends (Session.exec limit command) fun _ next =>
      ∃ moves : List Server.Move, (∀ move ∈ moves, move.IsTurn) ∧
        moves.filterMap Server.Move.index? = command.index?.toList ∧ session.Turns moves next := by
  cases command with
  | receive index =>
      refine ⟨2, (exec_ends_of_move? 0 session howned hwatched rfl).mono fun _ next hnext => ?_⟩
      exact ⟨[.receive index], List.forall_mem_singleton.2 trivial, rfl, hnext⟩
  | deliver id =>
      refine ⟨2, ?_⟩
      cases id with
      | some id =>
          refine (exec_ends_of_move? 0 session howned hwatched rfl).mono fun _ next hnext => ?_
          exact ⟨[.deliver id], List.forall_mem_singleton.2 trivial, rfl, hnext⟩
      | none =>
          refine .get ?_
          split
          · exact .pure ⟨[], List.forall_mem_nil _, rfl, .refl session⟩
          · refine (deliverTo_ends (exec_calm 0) howned hwatched _).mono fun _ next hnext => ?_
            exact ⟨[.deliver _], List.forall_mem_singleton.2 trivial, rfl, hnext⟩
  | deliverAll =>
      refine ⟨session.server.backlog + 2,
        .bind (deliverAll_ends (exec_calm _) howned hwatched (Nat.lt_succ_self _)) ?_⟩
      intro _ next hnext
      obtain ⟨ids, hids⟩ := hnext
      refine .pure ⟨ids.map .deliver, ?_, ?_, hids⟩
      · intro move hmove
        obtain ⟨id, -, rfl⟩ := List.mem_map.1 hmove
        trivial
      · rw [List.filterMap_map]
        exact List.filterMap_eq_nil_iff.2 fun _ _ => rfl
  | _ => exact hcommand.elim

/-- Carries out commands from outside one after the other, and gives all that was observed. -/
def attend (limit : Nat) : List Command → Session → Option (List Event × Session)
  | [], session => some ([], session)
  | command :: rest, session =>
      match perform limit command session with
      | none => none
      | some (_, events, next) =>
          (attend limit rest next).map fun result => (events ++ result.1, result.2)

/-- What came of a schedule: the server has made the moves that were asked for and no others, and what
these show was shown. -/
structure Account (session : Session) (schedule : List Command) (moves : List Server.Move)
    (events : List Event) (final : Session) : Prop where
  turns : ∀ move ∈ moves, move.IsTurn
  indices : moves.filterMap Server.Move.index? = schedule.filterMap Command.index?
  server : final.server = session.server.run moves
  sights : GroupChat.sights events = (session.server.showings moves).map Showing.sight

variable {limit limit' : Nat} {command : Command} {schedule : List Command} {outcome : Outcome}
  {events : List Event} {moves moves' : List Server.Move}

theorem attend_cons (hperform : perform limit command session = some (outcome, events, next)) :
    attend limit (command :: schedule) session =
      (attend limit schedule next).map fun result => (events ++ result.1, result.2) := by
  simp only [attend, hperform]

theorem perform_extends (hlimit : limit ≤ limit')
    (hperform : perform limit command session = some (outcome, events, next)) :
    perform limit' command session = some (outcome, events, next) := by
  unfold perform at hperform ⊢
  split at hperform
  · cases hperform
  · rename_i hexec
    rw [exec_extends hlimit command _ _ hexec]
    exact hperform

theorem attend_extends (hlimit : limit ≤ limit') {result : List Event × Session}
    (hattend : attend limit schedule session = some result) :
    attend limit' schedule session = some result := by
  induction schedule generalizing session result with
  | nil => exact hattend
  | cons command rest ih =>
      cases hperform : perform limit command session with
      | none => simp only [attend, hperform, reduceCtorEq] at hattend
      | some performed =>
          obtain ⟨outcome, events, next⟩ := performed
          rw [attend_cons hperform] at hattend
          obtain ⟨later, hlater, rfl⟩ := Option.map_eq_some_iff.1 hattend
          rw [attend_cons (perform_extends hlimit hperform), ih hlater, Option.map_some]

/-- A command from outside starts without any events. -/
theorem perform_of_ends (goal : List Server.Move → Prop)
    (hends : ({ session with events := [] } : Session).Ends (Session.exec limit command)
      fun _ next => ∃ moves, goal moves ∧ ({ session with events := [] } : Session).Turns moves next) :
    ∃ moves outcome events next, goal moves ∧
      perform limit command session = some (outcome, events, next) ∧
      next.server = session.server.run moves ∧
      sights events = (session.server.showings moves).map Showing.sight := by
  obtain ⟨outcome, next, hexec, moves, hgoal, hturns⟩ := hends
  refine ⟨moves, outcome, next.events, { next with known := next.known.union next.server.members },
    hgoal, ?_, hturns.server, hturns.sights⟩
  simp only [perform, hexec]

theorem attend_of_move? (limit : Nat) (howned : session.server.Owned)
    (hwatched : session.server.Watched) (hmoves : schedule.map Command.move? = moves.map some)
    (hturns : ∀ move ∈ moves, move.IsTurn) :
    ∃ events final, attend (limit + 2) schedule session = some (events, final) ∧
      final.server = session.server.run moves := by
  induction schedule generalizing session moves with
  | nil =>
      obtain rfl := List.map_eq_nil_iff.1 hmoves.symm
      exact ⟨[], session, rfl, rfl⟩
  | cons command rest ih =>
      cases moves with
      | nil => cases hmoves
      | cons move later =>
          obtain ⟨hmove, hlater⟩ := List.cons.inj hmoves
          have hends := exec_ends_of_move? limit { session with events := [] } howned hwatched hmove
          obtain ⟨_, outcome, events, next, rfl, hperform, hserver, -⟩ :=
            perform_of_ends (· = [move]) (hends.mono fun _ _ hnext => ⟨_, rfl, hnext⟩)
          obtain ⟨later, final, hattend, hfinal⟩ := @ih next _
            (hserver ▸ howned.run [move])
            (hserver ▸ hwatched.run (List.forall_mem_singleton.2
              (hturns move List.mem_cons_self).isWatched))
            hlater fun other hother => hturns other (List.mem_cons_of_mem _ hother)
          refine ⟨events ++ later, final, ?_, ?_⟩
          · rw [attend_cons hperform, hattend, Option.map_some]
          · rw [hfinal, hserver]
            rfl

/-- Every schedule can be carried out. -/
theorem attend_ends (howned : session.server.Owned) (hwatched : session.server.Watched)
    (hschedule : ∀ command ∈ schedule, command.IsTurn) :
    ∃ limit moves events final, attend limit schedule session = some (events, final) ∧
      session.Account schedule moves events final := by
  induction schedule generalizing session with
  | nil => exact ⟨0, [], [], session, rfl, List.forall_mem_nil _, rfl, rfl, rfl⟩
  | cons command rest ih =>
      obtain ⟨limit, hends⟩ := exec_ends { session with events := [] } howned hwatched
        (hschedule command List.mem_cons_self)
      obtain ⟨moves, outcome, events, next, ⟨hturns, hindices⟩, hperform, hserver, hsights⟩ :=
        perform_of_ends
          (fun moves => (∀ move ∈ moves, move.IsTurn) ∧
            moves.filterMap Server.Move.index? = command.index?.toList)
          (hends.mono fun _ _ ⟨moves, hturns, hindices, hnext⟩ =>
            ⟨moves, ⟨hturns, hindices⟩, hnext⟩)
      obtain ⟨limit', moves', later, final, hattend, haccount⟩ := @ih next
        (hserver ▸ howned.run moves)
        (hserver ▸ hwatched.run fun move hmove => (hturns move hmove).isWatched)
        fun other hother => hschedule other (List.mem_cons_of_mem _ hother)
      refine ⟨max limit limit', moves ++ moves', events ++ later, final, ?_, ?_, ?_, ?_, ?_⟩
      · rw [attend_cons (perform_extends (Nat.le_max_left limit limit') hperform),
          attend_extends (Nat.le_max_right limit limit') hattend, Option.map_some]
      · exact List.forall_mem_append.2 ⟨hturns, haccount.turns⟩
      · rw [List.filterMap_append, hindices, haccount.indices]
        cases hindex : command.index? with
        | none => rw [List.filterMap_cons_none hindex, Option.toList_none, List.nil_append]
        | some index => rw [List.filterMap_cons_some hindex, Option.toList_some, List.singleton_append]
      · rw [haccount.server, hserver, Server.run_append]
      · rw [sights_append, hsights, haccount.sights, hserver, Server.showings_append, List.map_append]

theorem exists_attend_of_target? (limit : Nat) (schedule : List Command) (session : Session)
    (htarget : (attend limit schedule session).map (·.2.server.target?) = some none) :
    ∃ events final, attend limit schedule session = some (events, final) ∧
      ∀ id, final.server.queue id = [] := by
  obtain ⟨⟨events, final⟩, hattend, hnone⟩ := Option.map_eq_some_iff.1 htarget
  exact ⟨events, final, hattend, Server.queue_of_target?_eq_none hnone⟩

/-- Two commands can be carried out in either order, and the server is the same afterwards. -/
def Commute (session : Session) (limit : Nat) (first second : Command) : Prop :=
  ∃ events events' final final',
    attend limit [first, second] session = some (events, final) ∧
    attend limit [second, first] session = some (events', final') ∧
    final.server = final'.server

/-- Two schedules can be carried out, and if both of them leave nothing to be delivered, then the server
is the same afterwards, and every channel has shown the same to each of its subscribers. -/
def Converge (session : Session) (schedule schedule' : List Command) : Prop :=
  ∃ bound moves moves' events events' final final',
    (∀ limit, bound ≤ limit → attend limit schedule session = some (events, final)) ∧
    (∀ limit, bound ≤ limit → attend limit schedule' session = some (events', final')) ∧
    session.Account schedule moves events final ∧ session.Account schedule' moves' events' final' ∧
    ((∀ id, final.server.queue id = []) → (∀ id, final'.server.queue id = []) →
      final.server = final'.server ∧
        ∀ id, shownBy id (session.server.showings moves) =
          shownBy id (session.server.showings moves'))

theorem commute_of_move? (limit : Nat) (howned : session.server.Owned)
    (hwatched : session.server.Watched) {first second : Command} {move move' : Server.Move}
    (hfirst : first.move? = some move) (hsecond : second.move? = some move')
    (hmove : move.IsTurn) (hmove' : move'.IsTurn)
    (hcomm : session.server.run [move, move'] = session.server.run [move', move]) :
    session.Commute (limit + 2) first second := by
  have hmoves : [first, second].map Command.move? = [move, move'].map some := by
    simp [hfirst, hsecond]
  have hmoves' : [second, first].map Command.move? = [move', move].map some := by
    simp [hfirst, hsecond]
  obtain ⟨events, final, hattend, hfinal⟩ :=
    attend_of_move? limit howned hwatched hmoves (by simp [hmove, hmove'])
  obtain ⟨events', final', hattend', hfinal'⟩ :=
    attend_of_move? limit howned hwatched hmoves' (by simp [hmove, hmove'])
  exact ⟨events, events', final, final', hattend, hattend', by rw [hfinal, hfinal', hcomm]⟩

theorem converge_of_index? (howned : session.server.Owned) (hwatched : session.server.Watched)
    {schedule' : List Command} (hschedule : ∀ command ∈ schedule, command.IsTurn)
    (hschedule' : ∀ command ∈ schedule', command.IsTurn)
    (hindices : schedule.filterMap Command.index? = schedule'.filterMap Command.index?) :
    session.Converge schedule schedule' := by
  obtain ⟨limit, moves, events, final, hattend, haccount⟩ := attend_ends howned hwatched hschedule
  obtain ⟨limit', moves', events', final', hattend', haccount'⟩ :=
    attend_ends howned hwatched hschedule'
  refine ⟨max limit limit', moves, moves', events, events', final, final',
    fun _ hlimit => attend_extends (Nat.le_trans (Nat.le_max_left _ _) hlimit) hattend,
    fun _ hlimit => attend_extends (Nat.le_trans (Nat.le_max_right _ _) hlimit) hattend',
    haccount, haccount', fun hqueue hqueue' => ?_⟩
  rw [haccount.server] at hqueue ⊢
  rw [haccount'.server] at hqueue' ⊢
  refine Server.run_eq_of_index?_eq howned haccount.turns haccount'.turns ?_ hqueue hqueue'
  rw [haccount.indices, hindices, haccount'.indices]

/-- **Confluence.** While subscribers only look on, two deliveries can be made in either order, and so
can a delivery and the processing of a packet. Which of the queues is served when, and by what command,
makes no difference in the end. -/
theorem deliveries_commute (session : Session) {record : List Server.Occurrence}
    (hreached : Server.Evolves {} record session.server) (hwatched : session.server.Watched) :
    (∀ limit first second,
      session.Commute (limit + 2) (.deliver (some first)) (.deliver (some second))) ∧
    (∀ limit index id, session.server.queue id ≠ [] →
      session.Commute (limit + 2) (.receive index) (.deliver (some id))) ∧
    ∀ schedule schedule' : List Command, (∀ command ∈ schedule, command.IsTurn) →
      (∀ command ∈ schedule', command.IsTurn) →
      schedule.filterMap Command.index? = schedule'.filterMap Command.index? →
      session.Converge schedule schedule' := by
  have howned := hreached.owned
  refine ⟨fun limit first second => ?_, fun limit index id hqueue => ?_, fun _ _ => ?_⟩
  · exact commute_of_move? limit howned hwatched rfl rfl trivial trivial
      (session.server.step_deliver_comm first second)
  · exact commute_of_move? limit howned hwatched rfl rfl trivial trivial
      (Server.step_receive_deliver_comm index hqueue)
  · exact converge_of_index? howned hwatched

/-- Two members have entered and do not know it yet, and a third one wants to enter. -/
theorem deliveries_to_entrants_commute :
    let watcher : Subscriber := ⟨[7], fun _ _ _ => .finish (.ok true)⟩
    let moves : List Server.Move :=
      [.subscribe [1] watcher, .send [1] (.control .selfEnter), .send [2] (.control .selfEnter),
        .receive 0, .receive 0, .send [3] (.control .selfEnter)]
    let session : Session := { server := Server.run {} moves }
    let schedule : List Command := [.receive 0, .deliverAll]
    let schedule' : List Command := [.deliver (some [1]), .deliver none, .receive 0, .deliverAll]
    Server.Evolves {} (Server.record {} moves) session.server ∧ session.server.Watched ∧
      session.server.queue [1] ≠ [] ∧ session.server.queue [2] ≠ [] ∧
      session.Commute 2 (.deliver (some [1])) (.deliver (some [2])) ∧
      session.Commute 2 (.receive 0) (.deliver (some [1])) ∧
      (∃ events final, attend 12 schedule session = some (events, final) ∧
        ∀ id, final.server.queue id = []) ∧
      (∃ events final, attend 12 schedule' session = some (events, final) ∧
        ∀ id, final.server.queue id = []) ∧
      session.Converge schedule schedule' := by
  intro watcher moves
  dsimp only
  have hreached := Server.evolves_run moves
  have hwatched : (Server.run {} moves).Watched := Server.watched_empty.run (by
    simp [moves, Server.Move.IsWatched, watcher, Subscriber.IsIdle, Program.IsIdle])
  have hqueue : (Server.run {} moves).queue [1] ≠ [] := by decide
  have hqueue' : (Server.run {} moves).queue [2] ≠ [] := by decide
  have hdrained := exists_attend_of_target? 12 [.receive 0, .deliverAll]
    { server := Server.run {} moves } (by decide +kernel)
  have hdrained' := exists_attend_of_target? 12
    [.deliver (some [1]), .deliver none, .receive 0, .deliverAll]
    { server := Server.run {} moves } (by decide +kernel)
  generalize Server.run {} moves = server at *
  obtain ⟨hdeliver, hreceive, hconverge⟩ := deliveries_commute { server } hreached hwatched
  exact ⟨hreached, hwatched, hqueue, hqueue', hdeliver 0 [1] [2], hreceive 0 0 [1] hqueue, hdrained,
    hdrained', hconverge _ _ (by simp [Command.IsTurn]) (by simp [Command.IsTurn]) rfl⟩

end Session

end GroupChat
