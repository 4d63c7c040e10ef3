import FreshDocs.Batch.Scheduler

/-! A regenerator may have more of its own than another one shows. As long as it takes its time and does its jobs as
that other one does, a scheduler cannot tell them apart: whatever it does with the one, it does with the other. -/

namespace FreshDocs.Batch

variable {σ τ : Type}

/-- One regenerator takes its time and does its jobs as the other, and shows a part of what the other has. -/
structure Regenerator.Shows (view : τ → σ) (whole : Regenerator τ) (part : Regenerator σ) : Prop where
  start : ∀ (job : Job) (now : Timestamp) (own : τ),
    Prod.map id view (whole.start job now own) = part.start job now (view own)
  act : ∀ (job : Job) (now : Timestamp) (world : Workspace × τ),
    Prod.map id (Prod.map id view) (whole.act job now world) = part.act job now (Prod.map id view world)

namespace Machine

def view (view : τ → σ) (machine : Machine τ) : Machine σ :=
  { scheduler := machine.scheduler, workspace := machine.workspace, own := view machine.own }

section
variable {shown : τ → σ} {whole : Regenerator τ} {part : Regenerator σ} (shows : whole.Shows shown part)
  (now : Timestamp) (machine : Machine τ)
include shows

private theorem view_start (job : Job) :
    Prod.map id (view shown) (start whole now job machine) = start part now job (machine.view shown) := by
  have started := shows.start job now machine.own
  simp only [start, view, ← started]
  rfl

theorem view_act (job : Job) :
    Prod.map id (view shown) (act whole now job machine) = act part now job (machine.view shown) := by
  have acted : Prod.map id (Prod.map id shown) (whole.act job now (machine.workspace, machine.own)) =
      part.act job now (machine.workspace, shown machine.own) := shows.act job now _
  simp only [act, view, ← acted]
  rfl

private theorem view_actSection (subject : Section) :
    Prod.map id (view shown) (actSection whole now subject machine) = actSection part now subject (machine.view shown) := by
  rw [actSection, actSection, ← view_act shows]
  obtain ⟨failure, acted⟩ := act whole now (.single subject) machine
  cases failure <;> rfl

omit shows in
private theorem view_pause (batch : Running) (rest : List Section) :
    (pause now batch rest machine).view shown = pause now batch rest (machine.view shown) := rfl

private theorem view_runSections (batch : Running) (parts : List Section) :
    (runSections whole now batch parts machine).view shown = runSections part now batch parts (machine.view shown) := by
  induction parts generalizing machine with
  | nil => rfl
  | cons first rest ih =>
    rw [runSections, runSections, ← view_start shows]
    obtain ⟨delay, begun⟩ := start whole now (.single first) machine
    dsimp only [Prod.map, id]
    rw [apply_ite (view shown), ← view_actSection shows]
    obtain ⟨failure, acted⟩ := actSection whole now first begun
    cases failure with
    | some failure => rfl
    | none =>
      dsimp only [Prod.map, id]
      rw [apply_ite (view shown), ih acted, view_pause]
      rfl

private theorem view_runJob (batch : Running) (job : Job) :
    (runJob whole now batch job machine).view shown = runJob part now batch job (machine.view shown) := by
  rw [runJob, runJob, ← view_start shows]
  obtain ⟨delay, begun⟩ := start whole now job machine
  dsimp only [Prod.map, id]
  rw [apply_ite (view shown), ← view_act shows]
  rfl

private theorem view_execute (batch : Running) :
    (execute whole now batch machine).view shown = execute part now batch (machine.view shown) := by
  simp only [execute]
  cases batch.plan.strategy with
  | full => exact view_runJob shows now _ batch .everything
  | templates => exact view_runJob shows now _ batch _
  | sections => exact view_runSections shows now _ batch _
  | incremental => rfl

theorem view_apply (after : After) :
    (apply whole now after machine).view shown = apply part now after (machine.view shown) := by
  simp only [apply]
  by_cases empty : machine.scheduler.pending.isEmpty
  · rw [if_pos empty, if_pos (show (machine.view shown).scheduler.pending.isEmpty from empty)]
    rfl
  · rw [if_neg empty, if_neg (show ¬(machine.view shown).scheduler.pending.isEmpty from empty)]
    exact view_execute shows now _ _

theorem view_resume (waiting : Waiting) :
    (resume whole now waiting machine).view shown = resume part now waiting (machine.view shown) := by
  obtain ⟨batch, stage, due⟩ := waiting
  cases stage with
  | pausing rest => exact view_runSections shows now machine batch rest
  | acting job rest =>
    cases job with
    | everything =>
      simp only [resume, ← view_act shows]
      rfl
    | templates paths =>
      simp only [resume, ← view_act shows]
      rfl
    | single first =>
      simp only [resume, ← view_actSection shows]
      obtain ⟨failure, acted⟩ := actSection whole now first machine
      cases failure with
      | some failure => rfl
      | none =>
        dsimp only [Prod.map, id]
        rw [apply_ite (view shown), view_runSections shows, view_pause]
        rfl

private theorem view_carryOut (command : Command) :
    (carryOut whole now machine command).view shown = carryOut part now (machine.view shown) command := by
  cases command with
  | submit changes => cases changes <;> rfl
  | flush ticket => exact view_apply shows now machine _
  | shutdown ticket => exact view_apply shows now machine _
  | hangUp => exact view_apply shows now machine _

theorem view_take : (take whole now machine).view shown = take part now (machine.view shown) := by
  have same : (machine.view shown).scheduler = machine.scheduler := rfl
  simp only [take, same]
  cases machine.scheduler.mailbox with
  | nil => rfl
  | cons command rest =>
    dsimp only
    rw [apply_ite (view shown), view_carryOut shows]
    rfl

theorem view_wake : (wake whole now machine).view shown = wake part now (machine.view shown) := by
  have same : (machine.view shown).scheduler = machine.scheduler := rfl
  simp only [wake, same]
  cases machine.scheduler.waiting with
  | none => rfl
  | some waiting =>
    dsimp only
    rw [apply_ite (view shown), view_resume shows]

theorem view_closeWindow :
    (closeWindow whole now machine).view shown = closeWindow part now (machine.view shown) := by
  have same : (machine.view shown).scheduler = machine.scheduler := rfl
  simp only [closeWindow, same]
  cases machine.scheduler.waiting with
  | some waiting => rfl
  | none =>
    cases machine.scheduler.deadline with
    | none => rfl
    | some deadline =>
      dsimp only
      rw [apply_ite (view shown), view_apply shows]

end

end Machine

end FreshDocs.Batch
