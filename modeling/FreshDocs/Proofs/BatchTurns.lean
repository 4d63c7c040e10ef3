import FreshDocs.Proofs.BatchRecord

/-! What a turn can do to a scheduler. Each of the ways says how the jobs of the regenerator ended
meanwhile, and that is all that is left of the regenerator: it has no other hold on a batch. -/

namespace FreshDocs.Batch

variable {σ : Type}

theorem Outcome.failure?_eq_none {outcome : Outcome} : outcome.failure? = none ↔ outcome = .done := by
  cases outcome with
  | done => simp [failure?]
  | failed reason => simp [failure?]
  | crashed words => cases words <;> simp [failure?]

/-- What becomes of a scheduler that has begun a batch, when the regenerator's jobs end in a
certain way: it waits as long as all goes well, or else the batch is over. -/
inductive Ran (batch : Running) (before : Scheduler) (outcomes : List Outcome) : Scheduler → Prop where
  | waits (stage : Stage) (due : Timestamp) (well : ∀ outcome ∈ outcomes, outcome = .done) :
      Ran batch before outcomes (before.suspend batch stage due)
  | ends (now : Timestamp) (failure : Option String)
      (honest : failure = none ↔ ∀ outcome ∈ outcomes, outcome = .done) :
      Ran batch before outcomes (before.conclude now batch failure)

private theorem Ran.afterDone {batch : Running} {before after : Scheduler} {outcomes : List Outcome}
    (ran : Ran batch before outcomes after) : Ran batch before (.done :: outcomes) after := by
  cases ran with
  | waits stage due well => exact .waits stage due (by simpa using well)
  | ends now failure honest => exact .ends now failure (by simpa using honest)

inductive Applied (next : After) (before : Scheduler) : List Outcome → Scheduler → Prop where
  | nothing (empty : before.pending = []) : Applied next before [] (before.proceed next)
  | batch (now : Timestamp) (plan : Plan) (outcomes : List Outcome) (after : Scheduler)
      (gathered : before.pending ≠ []) (covers : plan.changed = Plan.mentioned before.pending)
      (ran : Ran (before.begin now plan next).1 (before.begin now plan next).2 outcomes after) :
      Applied next before outcomes after

def Command.next? : Command → Option After
  | .submit _ => none
  | .flush ticket => some (.acknowledge ticket)
  | .shutdown ticket => some (.stop (some ticket))
  | .hangUp => some (.stop none)

inductive Turned (before : Scheduler) : List Outcome → Scheduler → Prop where
  | rests : Turned before [] before
  | skips (rest : List Command) (ready : before.accepting = true ∧ before.waiting = none)
      (first : before.mailbox = .submit [] :: rest) : Turned before [] { before with mailbox := rest }
  | gathers (now : Timestamp) (changes : List Change) (rest : List Command)
      (ready : before.accepting = true ∧ before.waiting = none)
      (first : before.mailbox = .submit changes :: rest) :
      Turned before [] (({ before with mailbox := rest } : Scheduler).gather now changes)
  | obeys (command : Command) (rest : List Command) (next : After) (outcomes : List Outcome) (after : Scheduler)
      (ready : before.accepting = true ∧ before.waiting = none)
      (first : before.mailbox = command :: rest) (follows : command.next? = some next)
      (applied : Applied next { before with mailbox := rest } outcomes after) :
      Turned before outcomes after
  | closes (outcomes : List Outcome) (after : Scheduler) (free : before.waiting = none)
      (applied : Applied .gather before outcomes after) : Turned before outcomes after
  | resumes (waiting : Waiting) (outcomes : List Outcome) (after : Scheduler)
      (held : before.waiting = some waiting) (ran : Ran waiting.batch before outcomes after) :
      Turned before outcomes after

namespace Machine

def Runs (batch : Running) (before after : Machine (σ × List Outcome)) : Prop :=
  ∃ outcomes, after.own.2 = before.own.2 ++ outcomes ∧ Ran batch before.scheduler outcomes after.scheduler

section
variable (regenerator : Regenerator σ) (now : Timestamp) (machine : Machine (σ × List Outcome))

private theorem act_recording (job : Job) :
    ∃ outcome : Outcome, (act regenerator.recording now job machine).1 = outcome.failure? ∧
      (act regenerator.recording now job machine).2.scheduler = machine.scheduler ∧
      (act regenerator.recording now job machine).2.own.2 = machine.own.2 ++ [outcome] :=
  ⟨_, rfl, rfl, rfl⟩

private theorem actSection_recording (part : Section) :
    ∃ outcome : Outcome, (actSection regenerator.recording now part machine).1 = outcome.failure? ∧
      (actSection regenerator.recording now part machine).2.scheduler = machine.scheduler ∧
      (actSection regenerator.recording now part machine).2.own.2 = machine.own.2 ++ [outcome] := by
  have acted := act_recording regenerator now machine (.single part)
  rw [actSection]
  generalize act regenerator.recording now (.single part) machine = result at acted ⊢
  obtain ⟨failure, after⟩ := result
  cases failure <;> exact acted

private theorem pause_runs (batch : Running) (rest : List Section) :
    Runs batch machine (pause now batch rest machine) := by
  refine ⟨[], (List.append_nil _).symm, ?_⟩
  simp only [pause, modify]
  split
  · exact .ends now none (by simp)
  · exact .waits _ _ (by simp)

/-- A job that ends badly ends its batch. -/
theorem conclude_runs (batch : Running) {acted : Machine (σ × List Outcome)} {outcome : Outcome}
    (same : acted.scheduler = machine.scheduler) (log : acted.own.2 = machine.own.2 ++ [outcome]) :
    Runs batch machine (acted.modify (·.conclude now batch outcome.failure?)) := by
  refine ⟨[outcome], log, ?_⟩
  simp only [modify, same]
  exact .ends now _ (by simp [Outcome.failure?_eq_none])

private theorem act_runs (batch : Running) (job : Job) :
    Runs batch machine ((act regenerator.recording now job machine).2.modify
      (·.conclude now batch (act regenerator.recording now job machine).1)) := by
  obtain ⟨outcome, failure, same, log⟩ := act_recording regenerator now machine job
  rw [failure]
  exact conclude_runs now machine batch same log

/-- A job that ends well leaves it to what comes next how its batch ends. -/
theorem Runs.afterDone {batch : Running} {acted after : Machine (σ × List Outcome)}
    (same : acted.scheduler = machine.scheduler) (log : acted.own.2 = machine.own.2 ++ [.done])
    (runs : Runs batch acted after) : Runs batch machine after := by
  obtain ⟨outcomes, later, ran⟩ := runs
  refine ⟨.done :: outcomes, by simp [later, log], ?_⟩
  rw [same] at ran
  exact ran.afterDone

/-- A section that fails ends its batch, and otherwise it is left to what comes next. -/
theorem runs_of_section (batch : Running) (part : Section) {after : Machine (σ × List Outcome)}
    (bad : ∀ failure acted, actSection regenerator.recording now part machine = (some failure, acted) →
      after = acted.modify (·.conclude now batch (some failure)))
    (good : ∀ acted, actSection regenerator.recording now part machine = (none, acted) → Runs batch acted after) :
    Runs batch machine after := by
  obtain ⟨outcome, failure, same, log⟩ := actSection_recording regenerator now machine part
  rcases result : actSection regenerator.recording now part machine with ⟨ending, acted⟩
  rw [result] at failure same log
  subst failure
  cases well : outcome.failure? with
  | some failure =>
    rw [well] at result
    rw [bad failure acted result, ← well]
    exact conclude_runs now machine batch same log
  | none =>
    rw [Outcome.failure?_eq_none.mp well] at log
    rw [well] at result
    exact Runs.afterDone machine same log (good acted result)

private theorem runSections_runs (batch : Running) (parts : List Section) :
    Runs batch machine (runSections regenerator.recording now batch parts machine) := by
  induction parts generalizing machine with
  | nil => exact ⟨[], (List.append_nil _).symm, .ends now none (by simp)⟩
  | cons part rest ih =>
    simp only [runSections]
    split
    · change Runs batch (start regenerator.recording now (.single part) machine).2 _
      apply runs_of_section regenerator now _ batch part
      · intro failure acted result
        rw [result]
      · intro acted result
        rw [result]
        dsimp only
        split
        · exact ih acted
        · exact pause_runs now acted batch rest
    · exact ⟨[], (List.append_nil _).symm, .waits _ _ (by simp)⟩

private theorem runJob_runs (batch : Running) (job : Job) :
    Runs batch machine (runJob regenerator.recording now batch job machine) := by
  simp only [runJob]
  split
  · exact act_runs regenerator now (start regenerator.recording now job machine).2 batch job
  · exact ⟨[], (List.append_nil _).symm, .waits _ _ (by simp)⟩

private theorem execute_runs (batch : Running) :
    Runs batch machine (execute regenerator.recording now batch machine) := by
  simp only [execute]
  cases batch.plan.strategy with
  | full => exact runJob_runs regenerator now _ batch .everything
  | templates => exact runJob_runs regenerator now _ batch _
  | sections => exact runSections_runs regenerator now _ batch _
  | incremental => exact ⟨[], (List.append_nil _).symm, .ends now none (by simp)⟩

theorem resume_runs (waiting : Waiting) :
    Runs waiting.batch machine (resume regenerator.recording now waiting machine) := by
  obtain ⟨batch, stage, due⟩ := waiting
  cases stage with
  | pausing rest => exact runSections_runs regenerator now machine batch rest
  | acting job rest =>
    cases job with
    | everything => exact act_runs regenerator now machine batch .everything
    | templates paths => exact act_runs regenerator now machine batch (.templates paths)
    | single part =>
      simp only [resume]
      apply runs_of_section regenerator now machine batch part
      · intro failure acted result
        rw [result]
      · intro acted result
        rw [result]
        dsimp only
        split
        · exact runSections_runs regenerator now acted batch rest
        · exact pause_runs now acted batch rest

end

theorem apply_applies (regenerator : Regenerator σ) (now : Timestamp) (machine : Machine (σ × List Outcome))
    (next : After) :
    ∃ outcomes, (apply regenerator.recording now next machine).own.2 = machine.own.2 ++ outcomes ∧
      Applied next machine.scheduler outcomes (apply regenerator.recording now next machine).scheduler := by
  simp only [apply]
  split
  next empty => exact ⟨[], (List.append_nil _).symm, .nothing (List.isEmpty_iff.mp empty)⟩
  next gathered =>
    obtain ⟨outcomes, log, ran⟩ := execute_runs regenerator now _ _
    refine ⟨outcomes, log, .batch now _ outcomes _ ?_ ?_ ran⟩
    · simpa using gathered
    · rfl

private theorem take_turned (regenerator : Regenerator σ) (now : Timestamp) (machine : Machine (σ × List Outcome)) :
    ∃ outcomes, (take regenerator.recording now machine).own.2 = machine.own.2 ++ outcomes ∧
      Turned machine.scheduler outcomes (take regenerator.recording now machine).scheduler := by
  simp only [take]
  cases first : machine.scheduler.mailbox with
  | nil => exact ⟨[], (List.append_nil _).symm, .rests⟩
  | cons command rest =>
    dsimp only
    split
    next ready =>
      have ready : machine.scheduler.accepting = true ∧ machine.scheduler.waiting = none := by simpa using ready
      have obeys (next : After) (follows : command.next? = some next) :
          ∃ outcomes, (apply regenerator.recording now next
              (machine.modify ({ · with mailbox := rest }))).own.2 = machine.own.2 ++ outcomes ∧
            Turned machine.scheduler outcomes (apply regenerator.recording now next
              (machine.modify ({ · with mailbox := rest }))).scheduler := by
        obtain ⟨outcomes, log, applied⟩ := apply_applies regenerator now
          (machine.modify ({ · with mailbox := rest })) next
        exact ⟨outcomes, log, .obeys command rest next outcomes _ ready first follows applied⟩
      cases command with
      | submit changes =>
        cases changes with
        | nil => exact ⟨[], (List.append_nil _).symm, .skips rest ready first⟩
        | cons change more => exact ⟨[], (List.append_nil _).symm, .gathers now _ rest ready first⟩
      | flush ticket => exact obeys (.acknowledge ticket) rfl
      | shutdown ticket => exact obeys (.stop (some ticket)) rfl
      | hangUp => exact obeys (.stop none) rfl
    next => exact ⟨[], (List.append_nil _).symm, .rests⟩

theorem turn_turned (regenerator : Regenerator σ) (now : Timestamp) (machine : Machine σ) (turn : Turn) :
    Turned machine.scheduler (turn.outcomes regenerator now machine)
      (turn.apply regenerator now machine).scheduler := by
  have recorded : ∃ outcomes, turn.outcomes regenerator now machine = outcomes ∧
      Turned machine.scheduler outcomes (turn.apply regenerator.recording now machine.recorded).scheduler := by
    cases turn with
    | take => exact take_turned regenerator now machine.recorded
    | wake =>
      simp only [Turn.outcomes, Turn.apply, wake]
      cases held : machine.recorded.scheduler.waiting with
      | none => exact ⟨[], rfl, .rests⟩
      | some waiting =>
        dsimp only
        split
        · obtain ⟨outcomes, log, ran⟩ := resume_runs regenerator now machine.recorded waiting
          exact ⟨outcomes, log, .resumes waiting outcomes _ held ran⟩
        · exact ⟨[], rfl, .rests⟩
    | closeWindow =>
      simp only [Turn.outcomes, Turn.apply, closeWindow]
      split
      next deadline free due =>
        split
        · obtain ⟨outcomes, log, applied⟩ := apply_applies regenerator now machine.recorded .gather
          exact ⟨outcomes, log, .closes outcomes _ free applied⟩
        · exact ⟨[], rfl, .rests⟩
      next => exact ⟨[], rfl, .rests⟩
  obtain ⟨outcomes, same, turned⟩ := recorded
  have unaffected := forget_turn regenerator now machine.recorded turn
  rw [same, ← forget_recorded machine, ← unaffected]
  exact turned

end Machine
end FreshDocs.Batch
