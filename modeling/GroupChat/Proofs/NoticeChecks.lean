import GroupChat.Proofs.ChannelRuns

/-!
# Notices that a channel refuses

A channel checks a control against what its owner sees before anything else happens. Main statement: what it
refuses are the controls that do not fit, each with an error of its state and nothing else changed. Any other
notice goes on to all subscribers, but for a payload that arrives while the owner is outside.
-/

namespace GroupChat

namespace Channel

/-- A control that fits is absorbed, and leads the owner to what it sees next. -/
theorem absorb_of_fits {channel : Channel} {change : Control}
    (hfits : change.Fits channel.owner channel.standing) :
    ∃ line, channel.absorb (.control change) =
      .ok ({ channel with standing := change.effect channel.owner channel.standing }, line) := by
  obtain ⟨-, happly⟩ := (change.apply_cases channel.owner channel.standing).resolve_right fun h => h.1 hfits
  simp only [absorb, happly, bind, Except.bind, pure, Except.pure]
  exact ⟨_, rfl⟩

theorem eq_hear_of_absorb {channel heard : Channel} {notice : Notice} {line : Log.Line}
    (habsorb : channel.absorb notice = .ok (heard, line)) : heard = channel.hear notice := by
  rcases channel.absorb_cases notice with ⟨text, hok⟩ | ⟨failure, herror, -⟩
  · rw [hok] at habsorb
    cases habsorb
    rfl
  · rw [herror] at habsorb
    cases habsorb

end Channel

namespace Server

theorem notify_of_absorb {server : Server} {id : MemberId} {channel heard : Channel} {notice : Notice}
    {line : Log.Line} (habsorb : channel.absorb notice = .ok (heard, line)) :
    server.notify id channel notice = .ok (server.modifyChannel id fun _ => heard, heard, line) := by
  simp only [notify, habsorb, bind, Except.bind, pure, Except.pure]

end Server

namespace Session

variable {exec : Command → Run Outcome} {session final : Session} {id : MemberId} {channel heard : Channel}
  {notice : Notice} {failure : Failure}

/-- Calls all subscribers of a channel, and answers whether one of them accepted the notice. -/
def tellAll (exec : Command → Run Outcome) (channel : Channel) (notice : Notice) : Run Outcome := do
  modify (·.beginPublishing channel.owner)
  let handled ← callAll exec channel notice channel.subscriptions.active
  modify (·.endPublishing channel.owner)
  return .ok (.flag handled)

theorem publish_eq_ite (exec : Command → Run Outcome) (channel : Channel) (notice : Notice)
    (session : Session) :
    publish exec channel notice session =
      if channel.publishes notice then tellAll exec channel notice session
      else some (.ok (.flag false), session) := by
  unfold publish
  split
  · rfl
  · rfl

theorem notify_eq_of_absorb {line : Log.Line} (hchannel : session.channel? id = some channel)
    (habsorb : channel.absorb notice = .ok (heard, line)) :
    notify exec id notice session =
      publish exec heard notice ((session.modifyChannel id fun _ => heard).log [line]) :=
  notify_eq session hchannel (Server.notify_of_absorb habsorb)

theorem notify_of_fits {change : Control} (hchannel : session.channel? id = some channel)
    (hfits : change.Fits channel.owner channel.standing) :
    ∃ heard line, heard = { channel with standing := change.effect channel.owner channel.standing } ∧
      channel.absorb (.control change) = .ok (heard, line) ∧
      notify exec id (.control change) session =
        tellAll exec heard (.control change) ((session.modifyChannel id fun _ => heard).log [line]) := by
  obtain ⟨line, habsorb⟩ := Channel.absorb_of_fits hfits
  refine ⟨_, line, rfl, habsorb, ?_⟩
  rw [notify_eq_of_absorb hchannel habsorb]
  exact publish_eq_ite exec _ (.control change) _

end Session

end GroupChat
