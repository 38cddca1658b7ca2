import GroupChat.Greet.Codec

/-!
# Messages of the codec

An operation that is carried out under a logger has messages to give and something it comes to, and neither of
them depends on the logger: all that the logger decides is which of the messages are delivered. Main statement:
every operation of the codec is of this kind, whether it succeeds or fails.
-/

namespace GroupChat

namespace Log

/-- A message that is no less severe than a level. -/
def Line.within (level : Level) (line : Line) : Bool := decide (line.level.rank ≤ level.rank)

namespace Logger

variable {logger : Logger} {sink : Sink} {lower higher : Level}

theorem delivers_iff (level : Level) :
    logger.delivers level = true ↔
      level ≠ .crypto ∧ logger.sink = .recording ∧ level.rank ≤ logger.threshold.rank := by
  unfold delivers enabled
  cases logger.sink <;> simp

theorem delivered_append (lines more : List Line) :
    logger.delivered (lines ++ more) = logger.delivered lines ++ logger.delivered more :=
  List.filter_append lines more

theorem delivered_of_le (hle : lower.rank ≤ higher.rank) (lines : List Line) :
    delivered ⟨sink, lower⟩ lines = (delivered ⟨sink, higher⟩ lines).filter (·.within lower) := by
  unfold delivered
  rw [List.filter_filter]
  refine List.filter_congr fun line _ => Bool.eq_iff_iff.2 ?_
  rw [Bool.and_eq_true, delivers_iff, delivers_iff, Line.within, decide_eq_true_iff]
  constructor
  · rintro ⟨hopen, hsink, hrank⟩
    exact ⟨hrank, hopen, hsink, Nat.le_trans hrank hle⟩
  · rintro ⟨hrank, hopen, hsink, -⟩
    exact ⟨hopen, hsink, hrank⟩

theorem delivered_of_sink_ne (hsink : logger.sink ≠ .recording) (lines : List Line) :
    logger.delivered lines = [] :=
  List.filter_eq_nil_iff.2 fun line _ hdelivers => hsink ((delivers_iff line.level).1 hdelivers).2.1

/-- Key material is not delivered under any logger. -/
theorem delivered_of_crypto {lines : List Line} (hcrypto : ∀ line ∈ lines, line.level = .crypto) :
    logger.delivered lines = [] :=
  List.filter_eq_nil_iff.2 fun line hline hdelivers =>
    ((delivers_iff line.level).1 hdelivers).1 (hcrypto line hline)

theorem delivered_of_not_delivers {line : Line} (hdelivers : ¬logger.delivers line.level = true) :
    logger.delivered [line] = [] :=
  List.filter_cons_of_neg hdelivers

theorem compose_ok {ε : Type} (level : Level) (component text : Bytes) :
    logger.compose level component (fun _ => (.ok text : Except ε Bytes)) =
      .ok (logger.delivered [⟨level, component, text⟩]) := by
  unfold compose
  by_cases henabled : logger.enabled level = true
  · rw [if_pos henabled]
    rfl
  · have hdelivers : ¬logger.delivers level = true := by
      rw [delivers, Bool.and_eq_true]
      exact fun h => henabled h.1
    rw [if_neg henabled, delivered_of_not_delivers hdelivers]
    rfl

end Logger

namespace Logged

variable {ε ε' α β : Type} {operation : Logged ε α} {rest : α → Logged ε β} {result : Except ε β}
  {lines more : List Line}

/-- What an operation comes to, and the messages that it gives, under any logger. -/
def Gives (operation : Logged ε α) (result : Except ε α) (lines : List Line) : Prop :=
  ∀ (logger : Logger) (earlier : List Line),
    (operation.run logger).run.run earlier = (result, earlier ++ logger.delivered lines)

theorem gives_of (result : Except ε α) : (of result).Gives result [] := by
  intro logger earlier
  rw [Logger.delivered, List.filter_nil, List.append_nil]
  rfl

theorem gives_tell (line : Line) : (tell line : Logged ε Unit).Gives (.ok ()) [line] := by
  intro logger earlier
  unfold tell
  simp only [Logger.compose_ok]
  rfl

theorem Gives.bind {value : α} (hfirst : operation.Gives (.ok value) lines)
    (hrest : (rest value).Gives result more) : (operation >>= rest).Gives result (lines ++ more) := by
  intro logger earlier
  rw [Logger.delivered_append, ← List.append_assoc, ← hrest logger (earlier ++ logger.delivered lines)]
  simp only [ReaderT.run_bind, ExceptT.run_bind, StateT.run_bind, hfirst logger earlier]
  rfl

/-- What comes after an error is not carried out. -/
theorem Gives.bind_error {error : ε} (hfirst : operation.Gives (.error error) lines) :
    (operation >>= rest).Gives (.error error) lines := by
  intro logger earlier
  simp only [ReaderT.run_bind, ExceptT.run_bind, StateT.run_bind, hfirst logger earlier]
  rfl

theorem Gives.mapError {answer : Except ε α} (hgives : operation.Gives answer lines)
    (change : ε → ε') : (operation.mapError change).Gives (answer.mapError change) lines := by
  intro logger earlier
  have hrun : ((operation.mapError change).run logger).run.run earlier =
      (((operation.run logger).run.run earlier).1.mapError change,
        ((operation.run logger).run.run earlier).2) := rfl
  rw [hrun, hgives logger earlier]

theorem Gives.map {answer : Except ε α} (hgives : operation.Gives answer lines) (change : α → β) :
    (operation >>= fun value => pure (change value)).Gives (answer.map change) lines := by
  cases answer with
  | error error => exact hgives.bind_error
  | ok value =>
      rw [← List.append_nil lines]
      exact hgives.bind (gives_of (.ok (change value)))

theorem gives_forM_tell (lines : List Line) : (lines.forM tell : Logged ε Unit).Gives (.ok ()) lines := by
  induction lines with
  | nil => exact gives_of (.ok ())
  | cons line lines ih => exact (gives_tell line).bind ih

theorem Gives.under {answer : Except ε α} (hgives : operation.Gives answer lines) (logger : Logger) :
    operation.under logger = (answer, logger.delivered lines) :=
  hgives logger []

end Logged

end Log

namespace Greet

variable {scheme : SignatureScheme}

def messagesOf {ε α : Type} : Except ε (α × List Log.Line) → List Log.Line
  | .ok (_, lines) => lines
  | .error _ => []

theorem Message.encodeLogged_gives (message : Message) (key : SigningKey) :
    (message.encodeLogged scheme key).Gives ((message.encode scheme key).map Prod.fst)
      (messagesOf (message.encode scheme key)) := by
  unfold encodeLogged encode
  cases message.encodeContent with
  | error error => exact (Log.Logged.gives_of _).bind_error
  | ok content =>
      refine (Log.Logged.gives_of (.ok content)).bind ?_
      dsimp only [bind, Except.bind]
      generalize scheme.sign key.seed (signatureLabel ++ content) = signature
      cases (Field.signature.record signature).encode.mapError EncodeError.write with
      | error error => exact (Log.Logged.gives_of _).bind_error
      | ok front =>
          exact (Log.Logged.gives_of (.ok front)).bind
            ((Log.Logged.gives_tell _).map fun _ => front ++ content)

theorem Message.under_encodeLogged (message : Message) (key : SigningKey) (logger : Log.Logger) :
    (message.encodeLogged scheme key).under logger =
      ((message.encode scheme key).map Prod.fst, logger.delivered (messagesOf (message.encode scheme key))) :=
  (message.encodeLogged_gives key).under logger

namespace Envelope

/-- What is said about a signature is given message by message. -/
theorem judge_gives (judged : Envelope) :
    (do
      if !judged.verified then Log.tell judged.suspectLine
      Log.tell judged.decodedLine
      return judged : Log.Logged DecodeError Envelope).Gives (.ok judged) judged.verdictLines := by
  unfold verdictLines
  cases judged.verified with
  | true => exact (Log.Logged.gives_tell _).map fun _ => judged
  | false => exact (Log.Logged.gives_tell _).bind ((Log.Logged.gives_tell _).map fun _ => judged)

theorem level_of_mem_secretLines {envelope : Envelope} {line : Log.Line}
    (hline : line ∈ envelope.secretLines) : line.level = .crypto := by
  rcases List.mem_append.1 hline with hkey | hnonce
  · obtain ⟨index, hindex, rfl⟩ := List.mem_mapIdx.1 hkey
    rfl
  · obtain ⟨index, hindex, rfl⟩ := List.mem_mapIdx.1 hnonce
    rfl

/-- Carried out under a logger, a message is decoded as it is without one. What it says of key material
besides is not delivered. -/
theorem decodeLogged_gives (given : Option Bytes) (data : Bytes) :
    ∃ secrets : List Log.Line, (∀ line ∈ secrets, line.level = .crypto) ∧
      (decodeLogged scheme given data).Gives ((decode scheme given data).map Prod.fst)
        (secrets ++ messagesOf (decode scheme given data)) := by
  unfold decodeLogged decode
  cases parse data with
  | error error => exact ⟨[], by simp, (Log.Logged.gives_of _).bind_error⟩
  | ok envelope =>
      refine ⟨envelope.secretLines, fun line => level_of_mem_secretLines, ?_⟩
      refine (Log.Logged.gives_of (.ok envelope)).bind ((Log.Logged.gives_forM_tell _).bind ?_)
      dsimp only [bind, Except.bind, verify]
      cases envelope.usableKey? given with
      | none => exact (Log.Logged.gives_tell _).map fun _ => envelope
      | some key =>
          dsimp only
          cases envelope.verifiesUnder scheme key with
          | error error => exact (Log.Logged.gives_of _).bind_error
          | ok verified =>
              exact (Log.Logged.gives_of (.ok verified)).bind (judge_gives { envelope with verified })

theorem under_decodeLogged (given : Option Bytes) (data : Bytes) (logger : Log.Logger) :
    (decodeLogged scheme given data).under logger =
      ((decode scheme given data).map Prod.fst, logger.delivered (messagesOf (decode scheme given data))) := by
  obtain ⟨secrets, hsecrets, hgives⟩ := decodeLogged_gives given data
  rw [hgives.under logger, Log.Logger.delivered_append, Log.Logger.delivered_of_crypto hsecrets,
    List.nil_append]

end Envelope

end Greet

namespace Codec

open Greet

/-- Nothing that a call does depends on the logger, and neither do the messages that it gives. -/
theorem Call.exists_gives (scheme : SignatureScheme) (call : Call) :
    ∃ result lines, (call.perform scheme).Gives result lines := by
  cases call with
  | encode message key => exact ⟨_, _, ((message.encodeLogged_gives key).mapError _).map _⟩
  | decode given data =>
      obtain ⟨secrets, -, hgives⟩ := Envelope.decodeLogged_gives given data
      exact ⟨_, _, (hgives.mapError _).map _⟩
  | encodeContent message => exact ⟨_, _, (Log.Logged.gives_of _).map _⟩
  | summarise data => exact ⟨_, _, (Log.Logged.gives_of _).map _⟩
  | frame content => exact ⟨_, _, Log.Logged.gives_of (.ok _)⟩
  | query text => exact ⟨_, _, Log.Logged.gives_of (.ok _)⟩
  | error text => exact ⟨_, _, Log.Logged.gives_of (.ok _)⟩
  | parse text => exact ⟨_, _, (Log.Logged.gives_of _).map _⟩

end Codec

end GroupChat
