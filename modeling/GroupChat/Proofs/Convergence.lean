import GroupChat.Proofs.Backlog
import GroupChat.Proofs.Schedule

/-!
# Convergence

Main statement: processing everything takes as many steps as there are packets, delivering everything
takes as many as there are notices, and doing both in turn comes to an end, in which nothing waits any
more and every member sees the membership. What this asks of subscribers is that they do no more than
send, and for the last part that they only look on.
-/

namespace GroupChat

/-- Whether a command does no more than look up a channel or send. -/
def Command.IsModest : Command → Prop
  | .openChannel _ | .send _ _ | .setLevel _ | .target | .queued _ => True
  | _ => False

def Program.IsModest : Program → Prop
  | .finish _ => True
  | .perform command next => command.IsModest ∧ ∀ outcome, (next outcome).IsModest

def Subscriber.IsModest (subscriber : Subscriber) : Prop :=
  ∀ earlier notice standing, (subscriber.respond earlier notice standing).IsModest

namespace Server

/-- All subscribers do no more than send. -/
def Modest (server : Server) : Prop :=
  ∀ id, ∀ entry ∈ (server.mailbox id).channel.subscriptions.active, entry.2.IsModest

variable {server : Server}

/-- Whoever a move subscribes does no more than send. -/
def Move.IsModest : Move → Prop
  | .subscribe _ subscriber => subscriber.IsModest
  | _ => True

theorem Modest.step (hmodest : server.Modest) {move : Move} (hmove : move.IsModest) :
    (server.step move).1.Modest := by
  intro id entry hentry
  rcases mem_active_step hentry with hearlier | rfl
  · exact hmodest id entry hearlier
  · exact hmove

theorem Modest.run (hmodest : server.Modest) {moves : List Move}
    (hmoves : ∀ move ∈ moves, move.IsModest) : (server.run moves).Modest := by
  induction moves generalizing server with
  | nil => exact hmodest
  | cons move rest ih =>
      exact ih (hmodest.step (hmoves move List.mem_cons_self))
        fun other hother => hmoves other (List.mem_cons_of_mem _ hother)

/-- The server once all packets are processed. -/
def processed (server : Server) : Server :=
  server.run (List.replicate server.incoming.length (.receive 0))

end Server

namespace Session

/-- Channels were opened and packets sent, and nothing else has happened to the server. -/
def Asks (session next : Session) : Prop :=
  ∃ moves : List Server.Move, (∀ move ∈ moves, move.IsRequest) ∧
    next.server = session.server.run moves

variable {session next final : Session} {exec : Command → Run Outcome}

theorem Asks.of_server_eq (hserver : next.server = session.server) : session.Asks next :=
  ⟨[], List.forall_mem_nil _, hserver⟩

theorem Asks.of_step {move : Server.Move} (hmove : move.IsRequest)
    (hserver : next.server = (session.server.step move).1) : session.Asks next :=
  ⟨[move], List.forall_mem_singleton.2 hmove, hserver⟩

theorem Asks.trans (hfirst : session.Asks next) (hsecond : next.Asks final) :
    session.Asks final := by
  obtain ⟨first, hfirstMoves, hnext⟩ := hfirst
  obtain ⟨second, hsecondMoves, hfinal⟩ := hsecond
  refine ⟨first ++ second, List.forall_mem_append.2 ⟨hfirstMoves, hsecondMoves⟩, ?_⟩
  rw [hfinal, hnext, Server.run_append]

theorem Asks.consistent (hasks : session.Asks next) (hconsistent : session.server.Consistent) :
    next.server.Consistent := by
  obtain ⟨moves, -, hserver⟩ := hasks
  exact hserver ▸ hconsistent.run moves

/-- The server is in a state that some run reaches, as it is between any two commands of a session that
leaves it to the server to tell channels anything. -/
def OnRun (session : Session) : Prop := ∃ moves, session.server = Server.run {} moves

theorem OnRun.consistent (honRun : session.OnRun) : session.server.Consistent := by
  obtain ⟨moves, hserver⟩ := honRun
  exact hserver ▸ Server.consistent_empty.run moves

end Session

end GroupChat
