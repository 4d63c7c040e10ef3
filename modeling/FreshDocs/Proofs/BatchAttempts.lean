import FreshDocs.Proofs.BatchMoves
import FreshDocs.Proofs.SectionRegistry
import Mathlib.Data.List.Induction

/-! What the regenerator does for a batch, attempt by attempt. A log is kept next to the regenerator's own state: when a
job was asked for, when it ended, and in what world; and what others did to the registered sections meanwhile. A batch
asks for the jobs of its plan in their order, one after the other, and for none after one that ended badly. -/

namespace FreshDocs

private theorem Timestamp.le_addMillis (t : Timestamp) (millis : Nat) : t ≤ t.addMillis millis := by
  change t.toNanos ≤ (t.addMillis millis).toNanos
  rw [addMillis, toNanos_ofNanos]
  omega

namespace Batch

variable {σ : Type}

/-- A job that the regenerator did: when it was asked for, when it ended, and the world in which it was done. -/
structure Attempt (σ : Type) where
  job : Job
  called : Timestamp
  ended : Timestamp
  world : Workspace × σ

inductive Incident (σ : Type) where
  | attempt (done : Attempt σ)
  /-- Others left other sections than they found. -/
  | altered (before after : Sections)

def Incident.attempt? : Incident σ → Option (Attempt σ)
  | .attempt done => some done
  | .altered .. => none

private theorem Incident.eq_map_attempt {incidents : List (Incident σ)} (alone : ∀ incident ∈ incidents, ∃ attempt, incident = .attempt attempt) :
    incidents = (incidents.filterMap Incident.attempt?).map .attempt := by
  induction incidents with
  | nil => rfl
  | cons first rest ih =>
    obtain ⟨attempt, rfl⟩ := alone first List.mem_cons_self
    exact congrArg (.attempt attempt :: ·) (ih fun incident member => alone incident (List.mem_cons_of_mem _ member))

structure Log (σ : Type) where
  /-- When a job was last asked for. -/
  called : Timestamp := .epoch
  /-- Oldest first. -/
  incidents : List (Incident σ) := []

def Log.add (log : Log σ) (incident : Incident σ) : Log σ :=
  { log with incidents := log.incidents ++ [incident] }

def Log.attempts (log : Log σ) : List (Attempt σ) :=
  log.incidents.filterMap Incident.attempt?

namespace Attempt

def outcome (regenerator : Regenerator σ) (attempt : Attempt σ) : Outcome :=
  (regenerator.act attempt.job attempt.ended attempt.world).1

def leaves (regenerator : Regenerator σ) (attempt : Attempt σ) : Sections :=
  let left := (regenerator.act attempt.job attempt.ended attempt.world).2.1.sections
  match attempt.job, attempt.outcome regenerator with
  | .single part, .done => left.markUpdated part.id attempt.ended
  | _, _ => left

theorem leaves_single (regenerator : Regenerator σ) {attempt : Attempt σ} {part : Section}
    (same : attempt.job = .single part) :
    let left := (regenerator.act attempt.job attempt.ended attempt.world).2.1.sections
    attempt.leaves regenerator =
      if attempt.outcome regenerator = .done then left.markUpdated part.id attempt.ended else left := by
  rw [leaves, same]
  cases attempt.outcome regenerator <;> rfl

theorem leaves_other (regenerator : Regenerator σ) (attempt : Attempt σ) (other : ∀ part, attempt.job ≠ .single part) :
    attempt.leaves regenerator = (regenerator.act attempt.job attempt.ended attempt.world).2.1.sections := by
  rw [leaves]
  cases job : attempt.job with
  | single part => exact absurd job (other part)
  | everything | templates => rfl

end Attempt

namespace Regenerator

def logging (regenerator : Regenerator σ) : Regenerator (σ × Log σ) where
  start job now state :=
    let (delay, own) := regenerator.start job now state.1
    (delay, own, { state.2 with called := now })
  act job now world :=
    let (outcome, workspace, own) := regenerator.act job now (world.1, world.2.1)
    let attempt := { job, called := world.2.2.called, ended := now, world := (world.1, world.2.1) }
    (outcome, workspace, own, world.2.2.add (.attempt attempt))

theorem logging_shows (regenerator : Regenerator σ) : regenerator.logging.Shows Prod.fst regenerator :=
  ⟨fun _ _ _ => rfl, fun _ _ _ => rfl⟩

/-- A regenerator that never makes anybody wait. -/
def Prompt (regenerator : Regenerator σ) : Prop :=
  ∀ (job : Job) (now : Timestamp) (own : σ), (regenerator.start job now own).1 = 0

end Regenerator

def Plan.jobs (plan : Plan) : List Job :=
  match plan.strategy with
  | .full => [.everything]
  | .templates => [.templates plan.templates]
  | .sections => plan.sections.map .single
  | .incremental => []

def Stage.jobs : Stage → List Job
  | .acting job rest => job :: rest.map .single
  | .pausing rest => rest.map .single

theorem Plan.strategy_of_single {plan : Plan} (part : Section) (asked : .single part ∈ plan.jobs) :
    plan.strategy = .sections := by
  cases strategy : plan.strategy with
  | sections => rfl
  | full => simp [jobs, strategy] at asked
  | templates => simp [jobs, strategy] at asked
  | incremental => simp [jobs, strategy] at asked

/-- A job that is for no single section is the whole of its batch. -/
theorem Plan.jobs_alone {plan : Plan} {before rest : List Job} {job : Job} (whole : plan.jobs = before ++ job :: rest)
    (other : ∀ part, job ≠ .single part) : rest = [] := by
  have only (single : Job) (one : [single] = before ++ job :: rest) : rest = [] := by
    have lengths := congrArg List.length one
    simp only [List.length_append, List.length_cons, List.length_nil] at lengths
    exact List.length_eq_zero_iff.mp (by omega)
  cases strategy : plan.strategy with
  | full =>
    simp only [jobs, strategy] at whole
    exact only _ whole
  | templates =>
    simp only [jobs, strategy] at whole
    exact only _ whole
  | incremental => simp [jobs, strategy] at whole
  | sections =>
    simp only [jobs, strategy] at whole
    have member : job ∈ plan.sections.map Job.single := by simp [whole]
    obtain ⟨part, -, same⟩ := List.mem_map.mp member
    exact absurd same.symm (other part)

/-- A time is not before the one that is meant; and if time is kept, not after it either. -/
def Meets (timely : Prop) (meant actual : Timestamp) : Prop :=
  meant ≤ actual ∧ (timely → actual ≤ meant)

/-! ### The course of a batch -/

section
variable (regenerator : Regenerator σ) (timely : Prop) (delay : Nat) (base : Sections) (startedAt : Timestamp)

/-- The registered sections after incidents, and the time from which the next job may be asked for. -/
inductive Course : List (Incident σ) → Sections → Timestamp → Prop where
  | start : Course [] base startedAt
  | attempt {incidents : List (Incident σ)} {registry : Sections} {next : Timestamp} (attempt : Attempt σ)
      (before : Course incidents registry next) (called : Meets timely next attempt.called)
      (ended : attempt.called ≤ attempt.ended) (met : attempt.world.1.sections = registry) :
      Course (incidents ++ [.attempt attempt]) (attempt.leaves regenerator) (attempt.ended.addMillis delay)
  | altered {incidents : List (Incident σ)} {registry : Sections} {next : Timestamp}
      (before : Course incidents registry next) (sections : Sections) :
      Course (incidents ++ [.altered registry sections]) sections next

end

section
variable {regenerator : Regenerator σ} {timely : Prop} {delay : Nat} {base : Sections} {startedAt : Timestamp}
  {incidents : List (Incident σ)} {registry : Sections} {next : Timestamp}

/-- Time passes while a batch is applied. -/
theorem Course.times (course : Course regenerator timely delay base startedAt incidents registry next) :
    startedAt ≤ next ∧ ∀ attempt, .attempt attempt ∈ incidents →
      startedAt ≤ attempt.called ∧ attempt.called ≤ attempt.ended ∧ attempt.ended ≤ next := by
  induction course with
  | start => exact ⟨Int.le_refl _, fun _ member => nomatch member⟩
  | attempt last _ called ended _ ih =>
    have begun : startedAt ≤ last.called := Int.le_trans ih.1 called.1
    have paused : last.ended ≤ last.ended.addMillis delay := Timestamp.le_addMillis _ _
    have later := Int.le_trans called.1 (Int.le_trans ended paused)
    refine ⟨Int.le_trans ih.1 later, fun attempt member => ?_⟩
    rcases List.mem_append.mp member with before | same
    · obtain ⟨since, took, until_⟩ := ih.2 attempt before
      exact ⟨since, took, Int.le_trans until_ later⟩
    · cases List.mem_singleton.mp same
      exact ⟨begun, ended, paused⟩
  | altered _ sections ih =>
    refine ⟨ih.1, fun attempt member => ih.2 attempt ?_⟩
    simpa using member

private theorem Course.of_nil (course : Course regenerator timely delay base startedAt [] registry next) : registry = base := by
  generalize empty : ([] : List (Incident σ)) = incidents at course
  cases course with
  | start => rfl
  | attempt => simp at empty
  | altered => simp at empty

private theorem Course.of_attempt {attempt : Attempt σ}
    (course : Course regenerator timely delay base startedAt [.attempt attempt] registry next) :
    attempt.world.1.sections = base ∧ registry = attempt.leaves regenerator := by
  generalize alone : [Incident.attempt attempt] = incidents at course
  cases course with
  | start => cases alone
  | attempt last before _ _ met =>
    have alone : _ ++ [Incident.attempt last] = [] ++ [Incident.attempt attempt] := alone.symm
    obtain ⟨empty, same⟩ := List.append_inj' alone rfl
    cases same
    subst empty
    exact ⟨met.trans before.of_nil, rfl⟩
  | @altered _ met _ _ sections =>
    have alone : _ ++ [Incident.altered met registry] = [] ++ [Incident.attempt attempt] := alone.symm
    obtain ⟨-, same⟩ := List.append_inj' alone rfl
    cases same

end

/-! ### The account of a batch -/

/-- A batch as it is seen from outside. -/
structure Account (σ : Type) where
  plan : Plan
  startedAt : Timestamp
  /-- The sections that were registered when the batch was begun. -/
  sections : Sections
  log : Log σ

def Running.account (batch : Running) (sections : Sections) (log : Log σ) : Account σ :=
  { plan := batch.plan, startedAt := batch.startedAt, sections, log }

namespace Account

section
variable (regenerator : Regenerator σ) (timely : Prop) (delay : Nat)

structure Stands (account : Account σ) (registry : Sections) (rest : List Job) (next : Timestamp) : Prop where
  course : Course regenerator timely delay account.sections account.startedAt account.log.incidents registry next
  well : ∀ attempt ∈ account.log.attempts, attempt.outcome regenerator = .done
  left : account.plan.jobs = account.log.attempts.map (·.job) ++ rest
  alone : regenerator.Prompt → account.plan.strategy ≠ .sections →
    ∀ incident ∈ account.log.incidents, ∃ attempt, incident = .attempt attempt

inductive Underway (account : Account σ) (registry : Sections) : Stage → Timestamp → Prop where
  | acting {job : Job} {rest : List Section} {next due : Timestamp} (slow : ¬regenerator.Prompt)
      (stands : account.Stands regenerator timely delay registry (job :: rest.map .single) next)
      (called : Meets timely next account.log.called) (later : account.log.called ≤ due) :
      Underway account registry (.acting job rest) due
  | pausing {rest : List Section} {due : Timestamp} (some : rest ≠ [])
      (stands : account.Stands regenerator timely delay registry (rest.map .single) due) :
      Underway account registry (.pausing rest) due

structure Over (account : Account σ) (registry : Sections) (failure : Option String) (now : Timestamp) : Prop where
  course : ∃ next, Course regenerator timely delay account.sections account.startedAt account.log.incidents registry next
  well : ∀ attempt ∈ account.log.attempts.dropLast, attempt.outcome regenerator = .done
  left : ∃ rest, account.plan.jobs = account.log.attempts.map (·.job) ++ rest ∧ (failure = none → rest = [])
  failure : failure = account.log.attempts.getLast?.bind fun attempt => (attempt.outcome regenerator).failure?
  ended : ∀ attempt ∈ account.log.attempts, attempt.ended ≤ now
  alone : regenerator.Prompt → account.plan.strategy ≠ .sections →
    ∀ incident ∈ account.log.incidents, ∃ attempt, incident = .attempt attempt

end

section
variable {regenerator : Regenerator σ} {timely : Prop} {delay : Nat} {account : Account σ} {registry : Sections}
  {rest : List Job} {next now : Timestamp}

theorem mem_attempts {attempt : Attempt σ} {log : Log σ} : attempt ∈ log.attempts ↔ .attempt attempt ∈ log.incidents := by
  simp only [Log.attempts, List.mem_filterMap]
  constructor
  · rintro ⟨incident, member, same⟩
    cases incident with
    | attempt done =>
      cases same
      exact member
    | altered before after => cases same
  · exact fun member => ⟨_, member, rfl⟩

theorem attempts_add (log : Log σ) (attempt : Attempt σ) :
    (log.add (.attempt attempt)).attempts = log.attempts ++ [attempt] := by
  simp [Log.add, Log.attempts, Incident.attempt?]

/-- A batch has come to its end when no job is left. -/
theorem Stands.ending (stands : account.Stands regenerator timely delay registry [] next)
    (ended : ∀ attempt ∈ account.log.attempts, attempt.ended ≤ now) :
    account.Over regenerator timely delay registry none now := by
  refine ⟨⟨next, stands.course⟩, fun attempt member => stands.well attempt (List.dropLast_subset _ member),
    ⟨[], stands.left, fun _ => rfl⟩, ?_, ended, stands.alone⟩
  cases last : account.log.attempts.getLast? with
  | none => rfl
  | some attempt =>
    have well := stands.well attempt (List.mem_of_getLast? last)
    simp [well, Outcome.failure?]

variable {job : Job}

def more (account : Account σ) (attempt : Attempt σ) : Account σ :=
  { account with log := account.log.add (.attempt attempt) }

section
variable {attempt : Attempt σ} (stands : account.Stands regenerator timely delay registry (attempt.job :: rest) next)
  (met : attempt.world.1.sections = registry) (called : Meets timely next attempt.called)
  (ended : attempt.called ≤ attempt.ended)
include stands met called ended

private theorem Stands.course_more : Course regenerator timely delay account.sections account.startedAt
    (account.more attempt).log.incidents (attempt.leaves regenerator) (attempt.ended.addMillis delay) :=
  .attempt attempt stands.course called ended met

omit met called ended in
private theorem Stands.alone_more (prompt : regenerator.Prompt) (whole : account.plan.strategy ≠ .sections) :
    ∀ incident ∈ (account.more attempt).log.incidents, ∃ attempt, incident = .attempt attempt := by
  intro incident member
  rcases List.mem_append.mp member with before | same
  · exact stands.alone prompt whole incident before
  · exact ⟨attempt, List.mem_singleton.mp same⟩

/-- After an attempt that ended well the batch goes on with the jobs that are left. -/
theorem Stands.done (well : attempt.outcome regenerator = .done) :
    (account.more attempt).Stands regenerator timely delay (attempt.leaves regenerator) rest
      (attempt.ended.addMillis delay) := by
  refine ⟨stands.course_more met called ended, ?_, ?_, stands.alone_more⟩
  · rw [more, attempts_add]
    intro other member
    rcases List.mem_append.mp member with before | same
    · exact stands.well other before
    · rwa [List.mem_singleton.mp same]
  · rw [more, attempts_add, List.map_append, List.append_assoc]
    exact stands.left

/-- An attempt that ended badly, or that was the last, ends the batch. -/
theorem Stands.concludes (last : attempt.outcome regenerator = .done → rest = []) :
    (account.more attempt).Over regenerator timely delay (attempt.leaves regenerator)
      (attempt.outcome regenerator).failure? attempt.ended := by
  refine ⟨⟨_, stands.course_more met called ended⟩, ?_, ⟨rest, ?_, ?_⟩, ?_, ?_, stands.alone_more⟩
  · rw [more, attempts_add, List.dropLast_concat]
    exact stands.well
  · rw [more, attempts_add, List.map_append, List.append_assoc]
    exact stands.left
  · exact fun none => last (Outcome.failure?_eq_none.mp none)
  · rw [more, attempts_add, List.getLast?_concat]
    rfl
  · rw [more, attempts_add]
    intro other member
    rcases List.mem_append.mp member with before | same
    · have times := stands.course.times.2 other (mem_attempts.mp before)
      exact Int.le_trans times.2.2 (Int.le_trans called.1 ended)
    · rw [List.mem_singleton.mp same]
      exact Int.le_refl _

end

section
variable {failure : Option String} (ending : account.Over regenerator timely delay registry failure now)
include ending

/-- A batch failed just if one of its attempts ended badly. -/
theorem Over.failed : failure ≠ none ↔ ∃ attempt ∈ account.log.attempts, attempt.outcome regenerator ≠ .done := by
  rw [ending.failure]
  have well := ending.well
  generalize account.log.attempts = attempts at well
  cases attempts using List.reverseRecOn with
  | nil => simp
  | append_singleton before last =>
    rw [List.dropLast_concat] at well
    rw [List.getLast?_concat, Option.bind_some, ne_eq, Outcome.failure?_eq_none]
    constructor
    · exact fun bad => ⟨last, by simp, bad⟩
    · rintro ⟨attempt, member, bad⟩
      rcases List.mem_append.mp member with earlier | here
      · exact absurd (well attempt earlier) bad
      · cases List.mem_singleton.mp here
        exact bad

/-- A batch that succeeded has done all its jobs, and all of them well. -/
theorem Over.done (succeeded : failure = none) :
    account.log.attempts.map (·.job) = account.plan.jobs ∧
      ∀ attempt ∈ account.log.attempts, attempt.outcome regenerator = .done := by
  obtain ⟨rest, left, last⟩ := ending.left
  refine ⟨?_, fun attempt member => ?_⟩
  · rw [left, last succeeded, List.append_nil]
  · by_contra bad
    exact ending.failed.mpr ⟨attempt, member, bad⟩ succeeded

/-- A batch of one job that nobody waits for meets the sections that were registered when it was begun. -/
theorem Over.whole (prompt : regenerator.Prompt) (succeeded : failure = none) (single : account.plan.jobs = [job])
    (strategy : account.plan.strategy ≠ .sections) :
    ∃ attempt, account.log.attempts = [attempt] ∧ attempt.job = job ∧ attempt.outcome regenerator = .done ∧
      attempt.world.1.sections = account.sections ∧ registry = attempt.leaves regenerator := by
  obtain ⟨jobs, well⟩ := ending.done succeeded
  rw [single] at jobs
  obtain ⟨attempt, alone, same⟩ := List.map_eq_singleton_iff.mp jobs
  have incidents : account.log.incidents = account.log.attempts.map .attempt :=
    Incident.eq_map_attempt (ending.alone prompt strategy)
  obtain ⟨next, course⟩ := ending.course
  rw [incidents, alone] at course
  obtain ⟨met, left⟩ := course.of_attempt
  exact ⟨attempt, alone, same, well attempt (by simp [alone]), met, left⟩

end

end

end Account

/-! ### What a batch comes to -/

namespace Machine

def attempt (machine : Machine (σ × Log σ)) (now : Timestamp) (job : Job) : Attempt σ :=
  { job, called := machine.own.2.called, ended := now, world := (machine.workspace, machine.own.1) }

section
variable (regenerator : Regenerator σ)

structure Acts (now : Timestamp) (job : Job) (machine : Machine (σ × Log σ))
    (result : Option String × Machine (σ × Log σ)) : Prop where
  failure : result.1 = ((machine.attempt now job).outcome regenerator).failure?
  scheduler : result.2.scheduler = machine.scheduler
  log : result.2.own.2 = machine.own.2.add (.attempt (machine.attempt now job))
  sections : result.2.workspace.sections = (machine.attempt now job).leaves regenerator

private theorem act_acts (now : Timestamp) (job : Job) (other : ∀ part, job ≠ .single part) (machine : Machine (σ × Log σ)) :
    Acts regenerator now job machine (act regenerator.logging now job machine) := by
  have left := Attempt.leaves_other regenerator (machine.attempt now job) other
  exact ⟨rfl, rfl, rfl, left.symm⟩

private theorem actSection_acts (now : Timestamp) (part : Section) (machine : Machine (σ × Log σ)) :
    Acts regenerator now (.single part) machine (actSection regenerator.logging now part machine) := by
  let attempt := machine.attempt now (.single part)
  have acted : (act regenerator.logging now (.single part) machine).1 = (attempt.outcome regenerator).failure? ∧
      (act regenerator.logging now (.single part) machine).2.scheduler = machine.scheduler ∧
      (act regenerator.logging now (.single part) machine).2.own.2 = machine.own.2.add (.attempt attempt) ∧
      attempt.leaves regenerator =
        if attempt.outcome regenerator = .done then
          (act regenerator.logging now (.single part) machine).2.workspace.sections.markUpdated part.id now
        else (act regenerator.logging now (.single part) machine).2.workspace.sections :=
    ⟨rfl, rfl, rfl, Attempt.leaves_single regenerator rfl⟩
  rw [actSection]
  generalize act regenerator.logging now (.single part) machine = result at acted
  obtain ⟨ending, after⟩ := result
  obtain ⟨failure, scheduler, log, sections⟩ := acted
  cases ending with
  | some reason =>
    have bad : attempt.outcome regenerator ≠ .done := by
      intro well
      rw [well] at failure
      cases failure
    rw [if_neg bad] at sections
    exact ⟨failure, scheduler, log, sections.symm⟩
  | none =>
    rw [if_pos (Outcome.failure?_eq_none.mp failure.symm)] at sections
    exact ⟨failure, scheduler, log, sections.symm⟩

/-- What becomes of a machine that goes on with a batch: it waits, or the batch ends now. -/
inductive Reached (timely : Prop) (delay : Nat) (base : Sections) (batch : Running) (now : Timestamp) (before : Scheduler)
    (after : Machine (σ × Log σ)) : Prop where
  | waits (stage : Stage) (due : Timestamp) (held : after.scheduler = before.suspend batch stage due)
      (underway : (batch.account base after.own.2).Underway regenerator timely delay after.workspace.sections stage due)
  | ends (failure : Option String) (concluded : after.scheduler = before.conclude now batch failure)
      (ending : (batch.account base after.own.2).Over regenerator timely delay after.workspace.sections failure now)

/-- The batch of a machine has come as far as to these jobs. -/
def Stands (timely : Prop) (delay : Nat) (base : Sections) (batch : Running) (machine : Machine (σ × Log σ))
    (rest : List Job) (next : Timestamp) : Prop :=
  (batch.account base machine.own.2).Stands regenerator timely delay machine.workspace.sections rest next

section
variable {regenerator} {timely : Prop} {delay : Nat} {base : Sections} {batch : Running} {now next : Timestamp} {job : Job}
  {rest : List Job} {machine : Machine (σ × Log σ)} {result : Option String × Machine (σ × Log σ)}
  (acts : Acts regenerator now job machine result)
  (stands : machine.Stands regenerator timely delay base batch (job :: rest) next)
  (called : Meets timely next machine.own.2.called) (later : machine.own.2.called ≤ now)
include acts stands called later

theorem Acts.done (well : result.1 = none) :
    result.2.Stands regenerator timely delay base batch rest (now.addMillis delay) := by
  have done := acts.failure.symm.trans well
  change (batch.account base machine.own.2).Stands regenerator timely delay machine.workspace.sections
    ((machine.attempt now job).job :: rest) next at stands
  have stood := stands.done rfl called later (Outcome.failure?_eq_none.mp done)
  rw [Machine.Stands, acts.log, acts.sections]
  exact stood

theorem Acts.concludes (last : result.1 = none → rest = []) :
    Reached regenerator timely delay base batch now machine.scheduler
      (result.2.modify (·.conclude now batch result.1)) := by
  refine .ends result.1 (congrArg (·.conclude now batch result.1) acts.scheduler) ?_
  change (batch.account base machine.own.2).Stands regenerator timely delay machine.workspace.sections
    ((machine.attempt now job).job :: rest) next at stands
  have ending := stands.concludes rfl called later fun done =>
    last (acts.failure.trans (Outcome.failure?_eq_none.mpr done))
  rw [← acts.failure] at ending
  simp only [modify]
  rw [acts.log, acts.sections]
  exact ending

end

section
variable {timely : Prop} {delay : Nat} {base : Sections} {batch : Running} {now next : Timestamp}
  {machine : Machine (σ × Log σ)}

private theorem started_stands {jobs : List Job} (now : Timestamp) (asked : Job)
    (stands : machine.Stands regenerator timely delay base batch jobs next) :
    (start regenerator.logging now asked machine).2.Stands regenerator timely delay base batch jobs next :=
  ⟨stands.course, stands.well, stands.left, stands.alone⟩

/-- Where there is no pause, the next section follows at once. -/
theorem meets_again (timely : Prop) (now : Timestamp) : Meets timely (now.addMillis (0 : Nat)) now := by
  have same : (now.addMillis (0 : Nat)).toNanos = now.toNanos := by
    rw [Timestamp.addMillis, Timestamp.toNanos_ofNanos]
    omega
  exact ⟨Int.le_of_eq same, fun _ => Int.le_of_eq same.symm⟩

private theorem slow_of_start {asked : Job} (slow : (start regenerator.logging now asked machine).1 ≠ 0) : ¬regenerator.Prompt :=
  fun prompt => slow (prompt asked now machine.own.1)

/-- A section that fails ends its batch, and otherwise the batch goes on with the next one. -/
theorem section_reached {part : Section} {rest : List Section} {after : Machine (σ × Log σ)}
    (stands : machine.Stands regenerator timely delay base batch (.single part :: rest.map .single) next)
    (called : Meets timely next machine.own.2.called) (later : machine.own.2.called ≤ now)
    (settings : machine.scheduler.settings.sectionDelay = delay)
    (bad : ∀ failure acted, actSection regenerator.logging now part machine = (some failure, acted) →
      after = acted.modify (·.conclude now batch (some failure)))
    (good : ∀ acted, actSection regenerator.logging now part machine = (none, acted) →
      after = if acted.scheduler.settings.sectionDelay = 0 then runSections regenerator.logging now batch rest acted
        else pause now batch rest acted)
    (sections : ∀ {next : Timestamp} {acted : Machine (σ × Log σ)},
      acted.Stands regenerator timely delay base batch (rest.map .single) next → Meets timely next now →
      acted.scheduler.settings.sectionDelay = delay →
      Reached regenerator timely delay base batch now acted.scheduler
        (runSections regenerator.logging now batch rest acted)) :
    Reached regenerator timely delay base batch now machine.scheduler after := by
  have acts := actSection_acts regenerator now part machine
  have concluded := acts.concludes stands called later
  have done := acts.done stands called later
  have scheduler := acts.scheduler
  generalize actSection regenerator.logging now part machine = result at concluded done scheduler bad good
  obtain ⟨failure, acted⟩ := result
  cases failure with
  | some failure =>
    rw [bad failure acted rfl]
    exact concluded nofun
  | none =>
    have stood := done rfl
    change acted.scheduler = machine.scheduler at scheduler
    rw [good acted rfl]
    split
    next none =>
      have settings : acted.scheduler.settings.sectionDelay = delay := by rw [scheduler, settings]
      have reached := sections stood (settings ▸ none ▸ meets_again timely now) settings
      rwa [scheduler] at reached
    next =>
      cases rest with
      | nil => exact concluded fun _ => rfl
      | cons first others =>
        have held : (pause now batch (first :: others) acted).scheduler =
            machine.scheduler.suspend batch (.pausing (first :: others)) (now.addMillis delay) := by
          rw [← settings, ← scheduler]
          rfl
        exact .waits _ _ held (.pausing (List.cons_ne_nil _ _) stood)

private theorem runSections_reached {parts : List Section}
    (stands : machine.Stands regenerator timely delay base batch (parts.map .single) next) (intime : Meets timely next now)
    (settings : machine.scheduler.settings.sectionDelay = delay) :
    Reached regenerator timely delay base batch now machine.scheduler
      (runSections regenerator.logging now batch parts machine) := by
  induction parts generalizing machine next with
  | nil =>
    refine .ends none rfl (stands.ending fun attempt member => ?_)
    have times := stands.course.times.2 attempt (Account.mem_attempts.mp member)
    exact Int.le_trans times.2.2 intime.1
  | cons part rest ih =>
    have begun := started_stands regenerator now (.single part) stands
    rw [runSections]
    dsimp only
    split
    · change Reached regenerator timely delay base batch now
        (start regenerator.logging now (.single part) machine).2.scheduler _
      refine section_reached regenerator begun intime (Int.le_refl now.toNanos) settings ?_ ?_ ih
      · intro failure acted result
        rw [result]
      · intro acted result
        rw [result]
    next slow =>
      have waits := Timestamp.le_addMillis now (start regenerator.logging now (.single part) machine).1
      exact .waits _ _ rfl (.acting (slow_of_start regenerator slow) begun intime waits)

private theorem runJob_reached {job : Job} (other : ∀ part, job ≠ .single part)
    (stands : machine.Stands regenerator timely delay base batch [job] next) (intime : Meets timely next now) :
    Reached regenerator timely delay base batch now machine.scheduler
      (runJob regenerator.logging now batch job machine) := by
  have begun := started_stands regenerator now job stands
  rw [runJob]
  dsimp only
  split
  · have acts := act_acts regenerator now job other (start regenerator.logging now job machine).2
    exact acts.concludes begun intime (Int.le_refl _) fun _ => rfl
  next slow =>
    have waits := Timestamp.le_addMillis now (start regenerator.logging now job machine).1
    exact .waits (.acting job []) _ rfl (.acting (slow_of_start regenerator slow) begun intime waits)

/-- A batch that is begun waits, or comes to its end at once. -/
theorem execute_reached (begun : batch.startedAt = now) (fresh : machine.own.2.incidents = [])
    (settings : machine.scheduler.settings.sectionDelay = delay) (same : machine.workspace.sections = base) :
    Reached regenerator timely delay base batch now machine.scheduler
      (execute regenerator.logging now batch machine) := by
  let dropped : Machine (σ × Log σ) :=
    { machine with workspace := invalidate now machine.scheduler.settings batch.plan machine.workspace }
  have kept : dropped.workspace.sections = base := by
    rw [← same]
    simp only [dropped, invalidate]
  have unlogged : (batch.account base dropped.own.2).log.incidents = [] := fresh
  have unmade : (batch.account base dropped.own.2).log.attempts = [] := by rw [Log.attempts, unlogged, List.filterMap_nil]
  have stands : dropped.Stands regenerator timely delay base batch batch.plan.jobs now := by
    have course : Course regenerator timely delay base batch.startedAt (batch.account base dropped.own.2).log.incidents
        dropped.workspace.sections now := by
      rw [unlogged, kept, ← begun]
      exact .start
    refine ⟨course, by simp [unmade], ?_, by simp [unlogged]⟩
    rw [unmade]
    rfl
  have intime : Meets timely now now := ⟨Int.le_refl _, fun _ => Int.le_refl _⟩
  have shape : execute regenerator.logging now batch machine =
      match batch.plan.strategy with
      | .full => runJob regenerator.logging now batch .everything dropped
      | .templates => runJob regenerator.logging now batch (.templates batch.plan.templates) dropped
      | .sections => runSections regenerator.logging now batch batch.plan.sections dropped
      | .incremental => dropped.modify (·.conclude now batch none) := rfl
  rw [shape]
  unfold Plan.jobs at stands
  generalize batch.plan.strategy = strategy at stands
  cases strategy with
  | full => exact runJob_reached regenerator (by simp) stands intime
  | templates => exact runJob_reached regenerator (by simp) stands intime
  | sections => exact runSections_reached regenerator stands intime settings
  | incremental =>
    exact .ends none rfl (stands.ending (by simp [unmade]))

/-- A batch that goes on after a wait waits again, or comes to its end. -/
theorem resume_reached {stage : Stage} {due : Timestamp}
    (underway : (batch.account base machine.own.2).Underway regenerator timely delay machine.workspace.sections stage due)
    (intime : Meets timely due now) (settings : machine.scheduler.settings.sectionDelay = delay) :
    Reached regenerator timely delay base batch now machine.scheduler
      (resume regenerator.logging now ⟨batch, stage, due⟩ machine) := by
  cases underway with
  | pausing some stands => exact runSections_reached regenerator stands intime settings
  | @acting job rest next due slow stands called later =>
    have ended : machine.own.2.called ≤ now := Int.le_trans later intime.1
    cases job with
    | single part =>
      simp only [resume]
      refine section_reached regenerator stands called ended settings ?_ ?_ (runSections_reached regenerator)
      · intro failure acted result
        rw [result]
      · intro acted result
        rw [result]
    | everything =>
      have other (part : Section) : Job.everything ≠ .single part := by simp
      have acts := act_acts regenerator now .everything other machine
      exact acts.concludes stands called ended fun _ => Plan.jobs_alone stands.left other
    | templates paths =>
      have other (part : Section) : Job.templates paths ≠ .single part := by simp
      have acts := act_acts regenerator now (.templates paths) other machine
      exact acts.concludes stands called ended fun _ => Plan.jobs_alone stands.left other

end

end

end Machine

end Batch
end FreshDocs
