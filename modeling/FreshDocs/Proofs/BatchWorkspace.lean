import FreshDocs.Batch.Scheduler

/-! What a batch leaves of the stores. After the first step of a batch, which drops what no longer
holds, only its regenerator has a hand in them: whatever the regenerator keeps is kept however it
ends, and however long the batch takes. -/

namespace FreshDocs.Batch

variable {σ : Type}

structure Regenerator.Keeps (regenerator : Regenerator σ) (holds : Workspace → Prop) : Prop where
  act : ∀ (job : Job) (now : Timestamp) (world : Workspace × σ), holds world.1 →
    holds (regenerator.act job now world).2.1
  stamp : ∀ (workspace : Workspace) (id : String) (now : Timestamp), holds workspace →
    holds { workspace with sections := workspace.sections.markUpdated id now }

namespace Machine
variable {regenerator : Regenerator σ} {holds : Workspace → Prop}

section
variable (keeps : regenerator.Keeps holds) (now : Timestamp) {machine : Machine σ}
include keeps

theorem act_keeps (job : Job) (held : holds machine.workspace) :
    holds (act regenerator now job machine).2.workspace :=
  keeps.act job now (machine.workspace, machine.own) held

private theorem actSection_keeps (part : Section) (held : holds machine.workspace) :
    holds (actSection regenerator now part machine).2.workspace := by
  have acted := act_keeps keeps now (.single part) held
  rw [actSection]
  generalize act regenerator now (.single part) machine = result at acted ⊢
  obtain ⟨failure, after⟩ := result
  cases failure with
  | some failure => exact acted
  | none => exact keeps.stamp _ _ _ acted

private theorem runSections_keeps (batch : Running) (parts : List Section) (held : holds machine.workspace) :
    holds (runSections regenerator now batch parts machine).workspace := by
  induction parts generalizing machine with
  | nil => exact held
  | cons part rest ih =>
    have started : holds (start regenerator now (.single part) machine).2.workspace := held
    have acted := actSection_keeps keeps now part started
    simp only [runSections]
    split
    · generalize actSection regenerator now part _ = result at acted ⊢
      obtain ⟨failure, after⟩ := result
      cases failure with
      | some failure => exact acted
      | none =>
        dsimp only at acted ⊢
        split
        · exact ih acted
        · exact acted
    · exact started

private theorem runJob_keeps (batch : Running) (job : Job) (held : holds machine.workspace) :
    holds (runJob regenerator now batch job machine).workspace := by
  have started : holds (start regenerator now job machine).2.workspace := held
  simp only [runJob]
  split
  · exact act_keeps keeps now job started
  · exact started

/-- A batch keeps what held after it dropped what no longer holds. -/
theorem execute_keeps (batch : Running)
    (held : holds (invalidate now machine.scheduler.settings batch.plan machine.workspace)) :
    holds (execute regenerator now batch machine).workspace := by
  simp only [execute]
  cases batch.plan.strategy with
  | full => exact runJob_keeps keeps now batch .everything held
  | templates => exact runJob_keeps keeps now batch _ held
  | sections => exact runSections_keeps keeps now batch _ held
  | incremental => exact held

theorem resume_keeps (waiting : Waiting) (held : holds machine.workspace) :
    holds (resume regenerator now waiting machine).workspace := by
  obtain ⟨batch, stage, due⟩ := waiting
  cases stage with
  | pausing rest => exact runSections_keeps keeps now batch rest held
  | acting job rest =>
    cases job with
    | everything => exact act_keeps keeps now .everything held
    | templates paths => exact act_keeps keeps now (.templates paths) held
    | single part =>
      have acted := actSection_keeps keeps now part held
      simp only [resume]
      generalize actSection regenerator now part machine = result at acted ⊢
      obtain ⟨failure, after⟩ := result
      cases failure with
      | some failure => exact acted
      | none =>
        dsimp only at acted ⊢
        split
        · exact runSections_keeps keeps now batch rest acted
        · exact acted

private theorem wake_keeps (held : holds machine.workspace) : holds (wake regenerator now machine).workspace := by
  unfold wake
  split
  · split
    · exact resume_keeps keeps now _ held
    · exact held
  · exact held

omit now in
theorem wakes_keep (times : List Timestamp) (held : holds machine.workspace) :
    holds (times.foldl (fun machine time => wake regenerator time machine) machine).workspace := by
  induction times generalizing machine with
  | nil => exact held
  | cons time rest ih => exact ih (wake_keeps keeps time held)

def plan (machine : Machine σ) : Plan :=
  Plan.ofChanges machine.scheduler.settings machine.workspace.artifacts.length machine.workspace.sections
    machine.scheduler.pending

theorem apply_keeps (next : After) (gathered : machine.scheduler.pending ≠ [])
    (held : holds (invalidate now machine.scheduler.settings machine.plan machine.workspace)) :
    holds (apply regenerator now next machine).workspace := by
  simp only [apply]
  rw [if_neg (by simpa using gathered)]
  exact execute_keeps keeps now _ held

end

end Machine
end FreshDocs.Batch
