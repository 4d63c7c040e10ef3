import FreshDocs.Proofs.BatchViews

/-! How a batch ends is decided by what the regenerator says while the batch is applied. Its
answers are written down next to its own state for that; the record has no influence on the run. -/

namespace FreshDocs.Batch

variable {σ : Type}

def Regenerator.recording (regenerator : Regenerator σ) : Regenerator (σ × List Outcome) where
  start job now state :=
    let (delay, own) := regenerator.start job now state.1
    (delay, own, state.2)
  act job now world :=
    let (outcome, workspace, own) := regenerator.act job now (world.1, world.2.1)
    (outcome, workspace, own, world.2.2 ++ [outcome])

namespace Machine

def recorded (machine : Machine σ) : Machine (σ × List Outcome) :=
  { scheduler := machine.scheduler, workspace := machine.workspace, own := (machine.own, []) }

def forget (machine : Machine (σ × List Outcome)) : Machine σ :=
  { scheduler := machine.scheduler, workspace := machine.workspace, own := machine.own.1 }

@[simp] theorem forget_recorded (machine : Machine σ) : machine.recorded.forget = machine := rfl

/-! ### The record has no influence -/

private theorem recording_shows (regenerator : Regenerator σ) : regenerator.recording.Shows Prod.fst regenerator :=
  ⟨fun _ _ _ => rfl, fun _ _ _ => rfl⟩

section
variable (regenerator : Regenerator σ) (now : Timestamp) (machine : Machine (σ × List Outcome))

theorem forget_apply (after : After) :
    (apply regenerator.recording now after machine).forget = apply regenerator now after machine.forget :=
  view_apply (recording_shows regenerator) now machine after

theorem forget_resume (waiting : Waiting) :
    (resume regenerator.recording now waiting machine).forget = resume regenerator now waiting machine.forget :=
  view_resume (recording_shows regenerator) now machine waiting

end

/-- What a scheduler does of its own accord, one thing at a time. -/
inductive Turn where
  | take
  | wake
  | closeWindow

def Turn.apply (regenerator : Regenerator σ) (now : Timestamp) (machine : Machine σ) : Turn → Machine σ
  | .take => Machine.take regenerator now machine
  | .wake => Machine.wake regenerator now machine
  | .closeWindow => Machine.closeWindow regenerator now machine

def Turn.outcomes (regenerator : Regenerator σ) (now : Timestamp) (machine : Machine σ) (turn : Turn) :
    List Outcome :=
  (turn.apply regenerator.recording now machine.recorded).own.2

theorem view_turn {τ : Type} {shown : τ → σ} {whole : Regenerator τ} {part : Regenerator σ}
    (shows : whole.Shows shown part) (now : Timestamp) (machine : Machine τ) (turn : Turn) :
    (turn.apply whole now machine).view shown = turn.apply part now (machine.view shown) := by
  cases turn with
  | take => exact view_take shows now machine
  | wake => exact view_wake shows now machine
  | closeWindow => exact view_closeWindow shows now machine

theorem forget_turn (regenerator : Regenerator σ) (now : Timestamp) (machine : Machine (σ × List Outcome))
    (turn : Turn) :
    (turn.apply regenerator.recording now machine).forget = turn.apply regenerator now machine.forget :=
  view_turn (recording_shows regenerator) now machine turn

end Machine

end FreshDocs.Batch
