import GroupChat.Session.Exec

/-!
The limit of a run only decides whether it finishes: a run that stays within its limit has the same
result under every larger one.
-/

namespace GroupChat

/-- Whatever the first run finishes with, the second one finishes with as well. -/
def Run.Extends {α : Type} (first second : Run α) : Prop :=
  ∀ session result, first session = some result → second session = some result

namespace Run.Extends

variable {α β : Type}

theorem refl (run : Run α) : Run.Extends run run := fun _ _ h => h

theorem of_failure (run : Run α) : Run.Extends (failure : Run α) run := by
  intro session result h
  cases h

theorem bind {first second : Run α} {next next' : α → Run β} (hfirst : Run.Extends first second)
    (hnext : ∀ value, Run.Extends (next value) (next' value)) :
    Run.Extends (first >>= next) (second >>= next') := by
  intro session result h
  change (first session).bind (fun pair => next pair.1 pair.2) = some result at h
  obtain ⟨pair, hpair, hrest⟩ := Option.bind_eq_some_iff.1 h
  change (second session).bind (fun pair => next' pair.1 pair.2) = some result
  rw [hfirst session pair hpair]
  exact hnext pair.1 pair.2 result hrest

end Run.Extends

variable {exec exec' : Command → Run Outcome}

theorem Program.run_extends (hexec : ∀ command, Run.Extends (exec command) (exec' command))
    (program : Program) : Run.Extends (program.run exec) (program.run exec') := by
  induction program using Program.rec
    (motive_1 := fun _ => True) (motive_3 := fun _ => True) with
  | finish verdict => exact .refl _
  | perform command next _ ih =>
      simp only [Program.run]
      refine .bind (hexec command) fun outcome => ?_
      cases outcome with
      | error failure => exact ih _
      | ok value => exact .bind (.refl _) fun _ => ih _
  | _ => trivial

namespace Session

theorem call_extends (hexec : ∀ command, Run.Extends (exec command) (exec' command))
    (id : MemberId) (notice : Notice) (subscriber : Subscriber) :
    Run.Extends (call exec id notice subscriber) (call exec' id notice subscriber) :=
  .bind (.refl _) fun _ => .bind (.refl _) fun _ => Program.run_extends hexec _

theorem callAll_extends (hexec : ∀ command, Run.Extends (exec command) (exec' command))
    (channel : Channel) (notice : Notice) (subscribers : List (Nat × Subscriber)) :
    Run.Extends (callAll exec channel notice subscribers)
      (callAll exec' channel notice subscribers) := by
  induction subscribers with
  | nil => exact .refl _
  | cons entry rest ih =>
      simp only [callAll]
      refine .bind (.refl _) fun session => ?_
      split
      · refine .bind (call_extends hexec _ _ _) fun verdict => ?_
        cases verdict with
        | ok handled => exact .bind ih fun _ => .refl _
        | error text => exact .bind (.refl _) fun _ => ih
      · exact ih

theorem publish_extends (hexec : ∀ command, Run.Extends (exec command) (exec' command))
    (channel : Channel) (notice : Notice) :
    Run.Extends (publish exec channel notice) (publish exec' channel notice) := by
  unfold publish
  split
  · refine .bind (.refl _) fun _ => .bind (callAll_extends hexec _ _ _) fun _ => .refl _
  · exact .refl _

theorem notify_extends (hexec : ∀ command, Run.Extends (exec command) (exec' command))
    (id : MemberId) (notice : Notice) :
    Run.Extends (notify exec id notice) (notify exec' id notice) := by
  refine .bind (.refl _) fun session => ?_
  split
  · exact .refl _
  · split
    · exact .refl _
    · exact .bind (.refl _) fun _ => publish_extends hexec _ _

theorem send_extends (hexec : ∀ command, Run.Extends (exec command) (exec' command))
    (id : MemberId) (action : Action) :
    Run.Extends (send exec id action) (send exec' id action) := by
  refine .bind (.refl _) fun session => ?_
  split
  · exact .refl _
  · split
    · exact .refl _
    · split
      · exact .refl _
      · exact .refl _
      · rename_i label carry _
        cases label with
        | none =>
            refine .bind (Program.run_extends hexec _) fun _ => .refl _
        | some label =>
            refine .bind (.refl _) fun _ => .bind (Program.run_extends hexec _) fun _ => .refl _

theorem deliverTo_extends (hexec : ∀ command, Run.Extends (exec command) (exec' command))
    (id : MemberId) : Run.Extends (deliverTo exec id) (deliverTo exec' id) := by
  refine .bind (.refl _) fun session => ?_
  split
  · exact .refl _
  · exact .bind (.refl _) fun _ => notify_extends hexec _ _

theorem deliverAll_extends (hexec : ∀ command, Run.Extends (exec command) (exec' command))
    {limit limit' : Nat} (hlimit : limit ≤ limit') :
    Run.Extends (deliverAll exec limit) (deliverAll exec' limit') := by
  induction limit generalizing limit' with
  | zero => exact .of_failure _
  | succ limit ih =>
      obtain ⟨limit', rfl⟩ : ∃ smaller, limit' = smaller + 1 := ⟨limit' - 1, by omega⟩
      simp only [deliverAll]
      refine .bind (.refl _) fun session => ?_
      split
      · exact .refl _
      · refine .bind (deliverTo_extends hexec _) fun outcome => ?_
        cases outcome with
        | error failure => exact .refl _
        | ok value => exact .bind (ih (by omega)) fun _ => .refl _

theorem settleAll_extends (hexec : ∀ command, Run.Extends (exec command) (exec' command))
    {limit limit' : Nat} (hlimit : limit ≤ limit') :
    Run.Extends (settleAll exec limit) (settleAll exec' limit') := by
  induction limit generalizing limit' with
  | zero => exact .of_failure _
  | succ limit ih =>
      obtain ⟨limit', rfl⟩ : ∃ smaller, limit' = smaller + 1 := ⟨limit' - 1, by omega⟩
      simp only [settleAll]
      refine .bind (.refl _) fun received => ?_
      cases received with
      | error failure => exact .refl _
      | ok received =>
          refine .bind (deliverAll_extends hexec (by omega)) fun delivered => ?_
          cases delivered with
          | error failure => exact .refl _
          | ok delivered =>
              dsimp only
              split
              · exact .refl _
              · exact ih (by omega)

theorem step_extends (hexec : ∀ command, Run.Extends (exec command) (exec' command))
    {limit limit' : Nat} (hlimit : limit ≤ limit') (command : Command) :
    Run.Extends (step exec limit command) (step exec' limit' command) := by
  cases command with
  | send id action =>
      refine .bind (.refl _) fun _ => ?_
      cases action with
      | error error => exact .refl _
      | ok action => exact send_extends hexec id action
  | notify id notice =>
      refine .bind (.refl _) fun _ => ?_
      cases notice with
      | error error => exact .refl _
      | ok notice => exact notify_extends hexec id notice
  | deliver id =>
      cases id with
      | none =>
          refine .bind (.refl _) fun session => ?_
          split
          · exact .refl _
          · exact deliverTo_extends hexec _
      | some id => exact deliverTo_extends hexec id
  | deliverAll => exact .bind (deliverAll_extends hexec hlimit) fun _ => .refl _
  | run => exact settleAll_extends hexec hlimit
  | _ => exact .refl _

theorem exec_extends {limit limit' : Nat} (hlimit : limit ≤ limit') (command : Command) :
    Run.Extends (Session.exec limit command) (Session.exec limit' command) := by
  induction limit generalizing limit' command with
  | zero => exact .of_failure _
  | succ limit ih =>
      obtain ⟨limit', rfl⟩ : ∃ smaller, limit' = smaller + 1 := ⟨limit' - 1, by omega⟩
      have hle : limit ≤ limit' := by omega
      exact step_extends (fun command => ih hle command) hle command

end Session

end GroupChat
