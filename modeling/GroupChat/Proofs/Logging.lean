import GroupChat.Proofs.Observers
import GroupChat.Signature.Ed25519
import Mathlib.Data.List.Forall2

/-!
# Logging is only observation

Two observers of the same run differ in the messages that they hear, and in nothing else. Under the same sink the
one with the lower threshold hears what the other one hears, less the messages above it, until a level is set:
from then on both hear the same. Main statement: this holds for the operations of the codec and for sessions of
any length, whatever is going on in them.
-/

namespace GroupChat

def Event.within (level : Log.Level) : Event → Bool
  | .log line => line.within level
  | _ => true

namespace Note

/-- What every observer hears of. -/
def happening : Note → List Event
  | .happened event _ => [event]
  | _ => []

theorem filter_heard (logger : Log.Logger) (note : Note) :
    (note.heard logger).filter (!·.isLog) = note.happening := by
  cases note with
  | happened event plain => exact List.filter_cons_of_pos (by rw [plain]; rfl)
  | message line =>
      refine List.filter_eq_nil_iff.2 fun event hevent => ?_
      obtain ⟨delivered, -, rfl⟩ := List.mem_map.1 hevent
      exact Bool.false_ne_true
  | level threshold => rfl

/-- Messages apart, all observers hear the same. -/
theorem filter_hear (logger : Log.Logger) (notes : List Note) :
    (hear logger notes).filter (!·.isLog) = notes.flatMap happening := by
  induction notes generalizing logger with
  | nil => rfl
  | cons note notes ih => rw [hear, List.filter_append, filter_heard, ih, List.flatMap_cons]

theorem isLog_of_mem_happening {note : Note} {event : Event} (hevent : event ∈ note.happening) :
    event.isLog = false := by
  cases note with
  | happened other plain => exact List.mem_singleton.1 hevent ▸ plain
  | message line => cases hevent
  | level threshold => cases hevent

theorem sink_adjust (logger : Log.Logger) (note : Note) : (note.adjust logger).sink = logger.sink := by
  cases note <;> rfl

theorem hear_of_sink_ne {logger : Log.Logger} (hsink : logger.sink ≠ .recording) (notes : List Note) :
    hear logger notes = notes.flatMap happening := by
  induction notes generalizing logger with
  | nil => rfl
  | cons note notes ih =>
      have hheard : note.heard logger = note.happening := by
        cases note with
        | message line => rw [heard, Log.Logger.delivered_of_sink_ne hsink]; rfl
        | _ => rfl
      rw [hear, hheard, ih (by rwa [sink_adjust]), List.flatMap_cons]

/-- Only a level that is set changes the logger. -/
theorem level_or_adjust_eq (note : Note) :
    (∃ threshold, note = level threshold) ∨ ∀ logger, note.adjust logger = logger := by
  cases note with
  | level threshold => exact .inl ⟨threshold, rfl⟩
  | happened event plain => exact .inr fun _ => rfl
  | message line => exact .inr fun _ => rfl

theorem adjustAll_of_not_mem {notes : List Note} (hnotes : ∀ threshold, level threshold ∉ notes)
    (logger : Log.Logger) : adjustAll logger notes = logger := by
  induction notes with
  | nil => rfl
  | cons note notes ih =>
      rcases note.level_or_adjust_eq with ⟨threshold, rfl⟩ | hadjust
      · exact absurd List.mem_cons_self (hnotes threshold)
      · rw [adjustAll, List.foldl_cons, hadjust]
        exact ih fun threshold hmem => hnotes threshold (List.mem_cons_of_mem note hmem)

variable {sink : Log.Sink} {lower higher : Log.Level}

theorem heard_of_le (hle : lower.rank ≤ higher.rank) (note : Note) :
    note.heard ⟨sink, lower⟩ = (note.heard ⟨sink, higher⟩).filter (·.within lower) := by
  cases note with
  | happened event plain =>
      have hwithin : event.within lower = true := by
        cases event with
        | log line => cases plain
        | _ => rfl
      rw [heard, heard, List.filter_cons_of_pos hwithin, List.filter_nil]
  | message line =>
      rw [heard, Log.Logger.delivered_of_le hle, heard, List.filter_map]
      rfl
  | level threshold => rfl

/-- The one hears less than the other until a level is set, and the same from then on. -/
theorem hear_split (sink : Log.Sink) (hle : lower.rank ≤ higher.rank) (notes : List Note) :
    ∃ before since, hear ⟨sink, higher⟩ notes = before ++ since ∧
      hear ⟨sink, lower⟩ notes = before.filter (·.within lower) ++ since ∧
      (since = [] ∨ ∃ threshold, level threshold ∈ notes) := by
  induction notes with
  | nil => exact ⟨[], [], rfl, rfl, .inl rfl⟩
  | cons note notes ih =>
      rcases note.level_or_adjust_eq with ⟨threshold, rfl⟩ | hadjust
      · exact ⟨[], _, rfl, rfl, .inr ⟨threshold, List.mem_cons_self⟩⟩
      · obtain ⟨before, since, hhigher, hlower, hsince⟩ := ih
        refine ⟨note.heard ⟨sink, higher⟩ ++ before, since, ?_, ?_, ?_⟩
        · rw [hear, hadjust, hhigher, List.append_assoc]
        · rw [hear, hadjust, hlower, heard_of_le hle, List.filter_append, List.append_assoc]
        · exact hsince.imp_right (Exists.imp fun threshold => List.mem_cons_of_mem note)

theorem hear_of_le (hle : lower.rank ≤ higher.rank) {notes : List Note}
    (hnotes : ∀ threshold, level threshold ∉ notes) :
    hear ⟨sink, lower⟩ notes = (hear ⟨sink, higher⟩ notes).filter (·.within lower) := by
  obtain ⟨before, since, hhigher, hlower, hsince⟩ := hear_split sink hle notes
  obtain rfl : since = [] := hsince.resolve_right (not_exists.2 hnotes)
  rw [hlower, hhigher, List.append_nil, List.append_nil]

theorem mem_hear_of_happened {notes : List Note} {event : Event} {plain : event.isLog = false}
    (hmem : happened event plain ∈ notes) (logger : Log.Logger) : event ∈ hear logger notes := by
  have hhappening : event ∈ notes.flatMap happening := List.mem_flatMap.2 ⟨_, hmem, List.mem_cons_self⟩
  rw [← filter_hear logger] at hhappening
  exact (List.mem_filter.1 hhappening).1

end Note

namespace Session

namespace Report

/-- All that there is to a report but the messages, and the logger that they were given to. -/
def silent (report : Report) : Report :=
  { outcome := report.outcome
    events := report.events.filter (!·.isLog)
    session := report.session.observed {} [] }

/-- The report without the messages above a level, under a logger with this level as its threshold. -/
def within (level : Log.Level) (report : Report) : Report :=
  { outcome := report.outcome
    events := report.events.filter (·.within level)
    session := report.session.observed { report.session.logger with threshold := level }
      (report.events.filter (·.within level)) }

end Report

/-- A level is set in the course of a session, either from outside or by a program, which says so. -/
def SetsLevel (commands : List Command) (reports : List Report) : Prop :=
  (∃ command ∈ commands, command.verb = .setLevel) ∨
    ∃ report ∈ reports, .did .setLevel .nothing ∈ report.events

/-- What a command from outside amounts to, whoever observes it. -/
structure Entry where
  outcome : Outcome
  notes : List Note
  session : Session

namespace Entry

def report (entry : Entry) (logger : Log.Logger) : Report :=
  { outcome := entry.outcome
    events := Note.hear logger entry.notes
    session := entry.session.observed (Note.adjustAll logger entry.notes) (Note.hear logger entry.notes) }

def reports : Log.Logger → List Entry → List Report
  | _, [] => []
  | logger, entry :: entries => entry.report logger :: reports (Note.adjustAll logger entry.notes) entries

theorem silent_report (entry : Entry) (logger : Log.Logger) :
    (entry.report logger).silent =
      ⟨entry.outcome, entry.notes.flatMap Note.happening, entry.session.observed {} []⟩ := by
  rw [Report.silent, report, Note.filter_hear]
  rfl

/-- Messages apart, all observers report the same. -/
theorem silent_reports (first second : Log.Logger) (entries : List Entry) :
    (reports first entries).map Report.silent = (reports second entries).map Report.silent := by
  induction entries generalizing first second with
  | nil => rfl
  | cons entry entries ih =>
      rw [reports, reports, List.map_cons, List.map_cons, silent_report, silent_report]
      exact congrArg _ (ih _ _)

theorem events_reports (logger : Log.Logger) (entries : List Entry) :
    (reports logger entries).flatMap Report.events = Note.hear logger (entries.flatMap Entry.notes) := by
  induction entries generalizing logger with
  | nil => rfl
  | cons entry entries ih =>
      rw [reports, List.flatMap_cons, ih, List.flatMap_cons, Note.hear_append]
      rfl

theorem reports_of_le {sink : Log.Sink} {lower higher : Log.Level} (hle : lower.rank ≤ higher.rank)
    {entries : List Entry} (hentries : ∀ threshold, Note.level threshold ∉ entries.flatMap notes) :
    reports ⟨sink, lower⟩ entries = (reports ⟨sink, higher⟩ entries).map (Report.within lower) := by
  induction entries with
  | nil => rfl
  | cons entry entries ih =>
      have hentry : ∀ threshold, Note.level threshold ∉ entry.notes :=
        fun threshold hmem => hentries threshold (List.mem_append_left _ hmem)
      have hrest := ih fun threshold hmem => hentries threshold (List.mem_append_right _ hmem)
      have hreport : entry.report ⟨sink, lower⟩ = (entry.report ⟨sink, higher⟩).within lower := by
        rw [Report.within, report, report, Note.adjustAll_of_not_mem hentry, Note.adjustAll_of_not_mem hentry,
          Note.hear_of_le hle hentry]
        rfl
      rw [reports, reports, Note.adjustAll_of_not_mem hentry, Note.adjustAll_of_not_mem hentry, List.map_cons,
        hreport, hrest]

/-- Whoever sets the level is found out. -/
theorem setsLevel_of_mem {commands : List Command} {entries : List Entry} {threshold : Log.Level}
    (hentries : List.Forall₂ (fun command entry => command.verb ≠ .setLevel → Note.Reported entry.notes)
      commands entries)
    (hmem : Note.level threshold ∈ entries.flatMap notes) (logger : Log.Logger) :
    SetsLevel commands (reports logger entries) := by
  induction hentries generalizing logger with
  | nil => cases hmem
  | @cons command entry commands entries hentry _ ih =>
      rcases List.mem_append.1 hmem with hhere | hlater
      · by_cases hverb : command.verb = .setLevel
        · exact .inl ⟨command, List.mem_cons_self, hverb⟩
        · have hdid := Note.mem_hear_of_happened (hentry hverb threshold hhere) logger
          exact .inr ⟨entry.report logger, List.mem_cons_self, hdid⟩
      · rcases ih hlater (Note.adjustAll logger entry.notes) with ⟨other, hother, hverb⟩ | ⟨report, hreport, hdid⟩
        · exact .inl ⟨other, List.mem_cons_of_mem command hother, hverb⟩
        · exact .inr ⟨report, List.mem_cons_of_mem _ hreport, hdid⟩

end Entry

variable (limit : Nat)

theorem perform_eq_map (command : Command) (session : Session) :
    perform limit command session =
      (Session.exec limit command { session with events := [] }).map fun pair =>
        (pair.1, pair.2.events, { pair.2 with known := pair.2.known.union pair.2.server.members }) := by
  unfold perform
  cases Session.exec limit command { session with events := [] } <;> rfl

/-- A command from outside has a chronicle, whoever observes it. -/
theorem exists_entry (command : Command) (session : Session) :
    (∀ logger events, perform limit command (session.observed logger events) = none) ∨
      ∃ entry : Entry, (command.verb ≠ .setLevel → Note.Reported entry.notes) ∧ ∀ logger events,
        perform limit command (session.observed logger events) =
          some (entry.outcome, (entry.report logger).events, (entry.report logger).session) := by
  have hperform {answer : Option (Outcome × Session)} {logger : Log.Logger} (events : List Event)
      (hanswer : Session.exec limit command (session.observed logger []) = answer) :
      perform limit command (session.observed logger events) = answer.map fun pair =>
        (pair.1, pair.2.events, { pair.2 with known := pair.2.known.union pair.2.server.members }) := by
    rw [perform_eq_map, ← hanswer]
    rfl
  by_cases hverb : command.verb = .setLevel
  -- From outside, setting the level is the one command that nothing is reported of.
  · cases command <;> cases hverb
    rename_i threshold
    rcases (exec_recounts limit).sets threshold with hnone | hsome
    · exact .inl fun logger events => hperform events (hnone _)
    · exact .inr ⟨⟨.ok .nothing, [.level threshold],
        { session with known := session.known.union session.server.members }⟩, fun hne => absurd rfl hne,
        fun logger events => hperform events (hsome _)⟩
  · rcases (exec_recounts limit).tells command hverb session with hnone | ⟨outcome, next, notes, hnotes, hsome⟩
    · exact .inl fun logger events => hperform events (hnone logger [])
    · exact .inr ⟨⟨outcome, notes, { next with known := next.known.union next.server.members }⟩, fun _ => hnotes,
        fun logger events => hperform events (hsome logger [])⟩

theorem performAll_cons (command : Command) (commands : List Command) (session : Session) :
    performAll limit (command :: commands) session = (perform limit command session).bind fun result =>
      (performAll limit commands result.2.2).map (⟨result.1, result.2.1, result.2.2⟩ :: ·) := by
  rw [performAll]
  cases perform limit command session with
  | none => rfl
  | some result => exact (Option.map_eq_bind).symm

theorem exists_entries (commands : List Command) (session : Session) :
    (∀ logger events, performAll limit commands (session.observed logger events) = none) ∨
      ∃ entries,
        List.Forall₂ (fun command (entry : Entry) => command.verb ≠ .setLevel → Note.Reported entry.notes)
          commands entries ∧
        ∀ logger events, performAll limit commands (session.observed logger events) =
          some (Entry.reports logger entries) := by
  induction commands generalizing session with
  | nil => exact .inr ⟨[], .nil, fun _ _ => rfl⟩
  | cons command commands ih =>
      rcases exists_entry limit command session with hnone | ⟨entry, hentry, hsome⟩
      · exact .inl fun logger events => by rw [performAll_cons, hnone, Option.bind_none]
      · rcases ih entry.session with hnone | ⟨entries, hentries, hreports⟩
        · refine .inl fun logger events => ?_
          rw [performAll_cons, hsome, Option.bind_some, Entry.report, hnone]
          rfl
        · refine .inr ⟨entry :: entries, .cons hentry hentries, fun logger events => ?_⟩
          rw [performAll_cons, hsome, Option.bind_some, Entry.report, hreports]
          rfl

/-- Messages apart, all that is done and all that is said of it is the same under any two loggers. -/
theorem map_silent_performAll (commands : List Command) (session : Session) (first second : Log.Logger) :
    (performAll limit commands (session.observed first [])).map (List.map Report.silent) =
      (performAll limit commands (session.observed second [])).map (List.map Report.silent) := by
  rcases exists_entries limit commands session with hnone | ⟨entries, -, hreports⟩
  · rw [hnone, hnone]
  · rw [hreports, hreports, Option.map_some, Option.map_some, Entry.silent_reports first second]

variable {limit} {commands : List Command} {session : Session} {sink : Log.Sink} {lower higher : Log.Level}
  {quiet loud : List Report}

theorem exists_entries_of_some
    (hquiet : performAll limit commands (session.observed ⟨sink, lower⟩ []) = some quiet)
    (hloud : performAll limit commands (session.observed ⟨sink, higher⟩ []) = some loud) :
    ∃ entries : List Entry, quiet = Entry.reports ⟨sink, lower⟩ entries ∧
      loud = Entry.reports ⟨sink, higher⟩ entries ∧
      ∀ threshold, .level threshold ∈ entries.flatMap Entry.notes → SetsLevel commands loud := by
  rcases exists_entries limit commands session with hnone | ⟨entries, hentries, hreports⟩
  · rw [hnone] at hquiet
    cases hquiet
  · rw [hreports] at hquiet hloud
    cases hquiet
    cases hloud
    exact ⟨entries, rfl, rfl, fun threshold hmem => Entry.setsLevel_of_mem hentries hmem _⟩

theorem eq_map_within_of_not_setsLevel (hle : lower.rank ≤ higher.rank)
    (hquiet : performAll limit commands (session.observed ⟨sink, lower⟩ []) = some quiet)
    (hloud : performAll limit commands (session.observed ⟨sink, higher⟩ []) = some loud)
    (hlevel : ¬SetsLevel commands loud) : quiet = loud.map (Report.within lower) := by
  obtain ⟨entries, rfl, rfl, hsets⟩ := exists_entries_of_some hquiet hloud
  exact Entry.reports_of_le hle fun threshold hmem => hlevel (hsets threshold hmem)

theorem exists_split (hle : lower.rank ≤ higher.rank)
    (hquiet : performAll limit commands (session.observed ⟨sink, lower⟩ []) = some quiet)
    (hloud : performAll limit commands (session.observed ⟨sink, higher⟩ []) = some loud) :
    ∃ before since, loud.flatMap Report.events = before ++ since ∧
      quiet.flatMap Report.events = before.filter (·.within lower) ++ since ∧
      (since = [] ∨ SetsLevel commands loud) := by
  obtain ⟨entries, rfl, rfl, hsets⟩ := exists_entries_of_some hquiet hloud
  obtain ⟨before, since, hhigher, hlower, hsince⟩ := Note.hear_split sink hle (entries.flatMap Entry.notes)
  rw [Entry.events_reports, Entry.events_reports]
  exact ⟨before, since, hhigher, hlower, hsince.imp_right fun hlevel => hlevel.elim hsets⟩

theorem isLog_of_sink_ne {logger : Log.Logger} (hsink : logger.sink ≠ .recording) {reports : List Report}
    (hreports : performAll limit commands (session.observed logger []) = some reports)
    {report : Report} (hreport : report ∈ reports) {event : Event} (hevent : event ∈ report.events) :
    event.isLog = false := by
  have hmem : event ∈ reports.flatMap Report.events := List.mem_flatMap.2 ⟨report, hreport, hevent⟩
  rcases exists_entries limit commands session with hnone | ⟨entries, -, hentries⟩
  · rw [hnone] at hreports
    cases hreports
  · rw [hentries] at hreports
    cases hreports
    rw [Entry.events_reports, Note.hear_of_sink_ne hsink] at hmem
    obtain ⟨note, -, hnote⟩ := List.mem_flatMap.1 hmem
    exact Note.isLog_of_mem_happening hnote

/-- **Logging is only observation**, in the codec and in sessions of any length. -/
theorem logging_only_observes (scheme : SignatureScheme) (call : Codec.Call) (limit : Nat)
    (commands : List Command) (session : Session) (first second : Log.Logger) (sink : Log.Sink)
    {lower higher : Log.Level} (hle : lower.rank ≤ higher.rank) :
    -- An operation of the codec comes to the same under any two loggers. The messages at the lower threshold are
    -- those at the higher one that are not above the lower one, and there are none without a sink.
    (((call.perform scheme).under first).1 = ((call.perform scheme).under second).1 ∧
      ((call.perform scheme).under ⟨sink, lower⟩).2 =
        ((call.perform scheme).under ⟨sink, higher⟩).2.filter (·.within lower) ∧
      ((call.perform scheme).under ⟨.absent, lower⟩).2 = []) ∧
    -- A session is the same under any two loggers, messages apart, if it finishes under either of them.
    (performAll limit commands (session.observed first [])).map (List.map Report.silent) =
      (performAll limit commands (session.observed second [])).map (List.map Report.silent) ∧
    -- What is heard at the lower threshold is what is heard at the higher one without the messages above the
    -- lower one: all through the session if no level is set in it, or else up to there, and then the same.
    (∀ quiet loud, performAll limit commands (session.observed ⟨sink, lower⟩ []) = some quiet →
      performAll limit commands (session.observed ⟨sink, higher⟩ []) = some loud →
      (¬SetsLevel commands loud → quiet = loud.map (Report.within lower)) ∧
      ∃ before since, loud.flatMap Report.events = before ++ since ∧
        quiet.flatMap Report.events = before.filter (·.within lower) ++ since ∧
        (since = [] ∨ SetsLevel commands loud)) ∧
    -- Without a sink no messages are heard in a session.
    ∀ reports, performAll limit commands (session.observed ⟨.absent, lower⟩ []) = some reports →
      ∀ report ∈ reports, ∀ event ∈ report.events, event.isLog = false := by
  have habsent : Log.Sink.absent ≠ .recording := by decide
  refine ⟨?_, map_silent_performAll limit commands session first second, ?_, ?_⟩
  · obtain ⟨result, lines, hgives⟩ := call.exists_gives scheme
    rw [hgives.under, hgives.under, hgives.under, hgives.under, hgives.under]
    exact ⟨rfl, Log.Logger.delivered_of_le hle lines, Log.Logger.delivered_of_sink_ne habsent lines⟩
  · intro quiet loud hquiet hloud
    exact ⟨eq_map_within_of_not_setsLevel hle hquiet hloud, exists_split hle hquiet hloud⟩
  · intro reports hreports report hreport event hevent
    exact isLog_of_sink_ne habsent hreports hreport hevent

/-- A member is told that it has entered. -/
def ownEntry : List Command := [.notify [65] (.ok (.control .selfEnter))]

/-- An entry is worth a message, but not a warning. -/
theorem logging_observes_entry :
    Log.Level.warn.rank ≤ Log.Level.info.rank ∧
      ∃ quiet loud, quiet = loud.map (Report.within .warn) ∧ quiet.flatMap Report.events = [] ∧
        loud.flatMap Report.events =
          [.log ⟨.info, Channel.component, Bytes.ofString "A: SelfEnter -> \x7bA\x7d"⟩] ∧
        performAll 2 ownEntry ((onChannel {} [65]).observed ⟨.recording, .info⟩ []) = some loud := by
  have hle : Log.Level.warn.rank ≤ Log.Level.info.rank := by decide
  obtain ⟨loud, hloud⟩ : ∃ loud,
      performAll 2 ownEntry ((onChannel {} [65]).observed ⟨.recording, .info⟩ []) = some loud := ⟨_, rfl⟩
  obtain ⟨quiet, hquiet⟩ : ∃ quiet,
      performAll 2 ownEntry ((onChannel {} [65]).observed ⟨.recording, .warn⟩ []) = some quiet := ⟨_, rfl⟩
  have hevents : loud.flatMap Report.events =
      [.log ⟨.info, Channel.component, Bytes.ofString "A: SelfEnter -> \x7bA\x7d"⟩] := by
    cases hloud
    decide
  have hlevel : ¬SetsLevel ownEntry loud := by
    rintro (⟨command, hmem, hverb⟩ | ⟨report, hmem, hdid⟩)
    · rw [List.mem_singleton.1 hmem] at hverb
      cases hverb
    · have hevent := List.mem_flatMap.2 ⟨report, hmem, hdid⟩
      rw [hevents] at hevent
      cases List.mem_singleton.1 hevent
  have hobserves :=
    logging_only_observes Ed25519.scheme (.frame []) 2 ownEntry (onChannel {} [65]) {} {} .recording hle
  refine ⟨hle, quiet, loud, (hobserves.2.2.1 quiet loud hquiet hloud).1 hlevel, ?_, hevents, hloud⟩
  cases hquiet
  decide

end Session

end GroupChat
