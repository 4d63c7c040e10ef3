import FreshDocs.Proofs.BatchAttempts
import FreshDocs.Proofs.BatchClocks
import FreshDocs.Proofs.BatchWorkspace
import Mathlib.Data.List.Forall2

/-! The chronicle of a scheduler: an account of every batch, with the machine as the batch leaves it. Whatever happens,
the accounts are those of the operations that are recorded, and each of them took the course that its plan says. -/

namespace FreshDocs.Batch

variable {σ : Type}

structure Finished (σ : Type) where
  account : Account σ
  machine : Machine σ

structure Chronicle (σ : Type) where
  machine : Machine σ
  /-- Oldest first. -/
  finished : List (Finished σ) := []
  /-- The batch that is being applied. -/
  current : Option (Account σ) := none

namespace Chronicle

def log (chronicle : Chronicle σ) : Log σ :=
  chronicle.current.elim {} (·.log)

def logged (chronicle : Chronicle σ) : Machine (σ × Log σ) :=
  { scheduler := chronicle.machine.scheduler
    workspace := chronicle.machine.workspace
    own := (chronicle.machine.own, chronicle.log) }

def follow (chronicle : Chronicle σ) (account : Account σ) (machine : Machine σ) : Chronicle σ :=
  if machine.scheduler.waiting.isSome then { chronicle with machine, current := some account }
  else { machine, finished := chronicle.finished ++ [{ account, machine }], current := none }

def goOn (chronicle : Chronicle σ) (log : Log σ) (machine : Machine σ) : Chronicle σ :=
  match chronicle.current with
  | some account => chronicle.follow { account with log } machine
  | none => { chronicle with machine }

def note (now : Timestamp) (chronicle : Chronicle σ) (after : Machine (σ × Log σ)) : Chronicle σ :=
  let before := chronicle.machine
  let machine := after.view Prod.fst
  if !before.scheduler.pending.isEmpty && machine.scheduler.pending.isEmpty then
    let account := { plan := before.plan, startedAt := now, sections := before.workspace.sections, log := after.own.2 }
    chronicle.follow account machine
  else chronicle.goOn after.own.2 machine

section
variable (regenerator : Regenerator σ)

def turn (now : Timestamp) (chronicle : Chronicle σ) (kind : Machine.Turn) : Chronicle σ :=
  chronicle.note now (kind.apply regenerator.logging now chronicle.logged)

def step (now : Timestamp) (chronicle : Chronicle σ) : Move σ → Chronicle σ
  | .turn kind => chronicle.turn regenerator now kind
  | .alter workspace own =>
    let altered := Incident.altered chronicle.machine.workspace.sections workspace.sections
    { chronicle with
      machine := { chronicle.machine with workspace, own }
      current := chronicle.current.map fun account => { account with log := account.log.add altered } }
  | move => { chronicle with machine := move.action.apply regenerator now chronicle.machine }

def run (chronicle : Chronicle σ) : List (Timestamp × Move σ) → Chronicle σ
  | [] => chronicle
  | (now, move) :: rest => run (chronicle.step regenerator now move) rest

/-! ### The machine of a chronicle runs by itself -/

theorem machine_follow (chronicle : Chronicle σ) (account : Account σ) (machine : Machine σ) :
    (chronicle.follow account machine).machine = machine := by
  unfold follow
  split <;> rfl

omit regenerator in
theorem machine_note (now : Timestamp) (chronicle : Chronicle σ) (after : Machine (σ × Log σ)) :
    (chronicle.note now after).machine = after.view Prod.fst := by
  rw [note]
  dsimp only
  split
  · exact machine_follow chronicle _ _
  · rw [goOn]
    cases chronicle.current with
    | none => rfl
    | some account => exact machine_follow chronicle _ _

theorem machine_turn (now : Timestamp) (chronicle : Chronicle σ) (kind : Machine.Turn) :
    (chronicle.turn regenerator now kind).machine = kind.apply regenerator now chronicle.machine :=
  (machine_note now chronicle _).trans (Machine.view_turn regenerator.logging_shows now chronicle.logged kind)

theorem machine_step (now : Timestamp) (chronicle : Chronicle σ) (move : Move σ) :
    (chronicle.step regenerator now move).machine = move.action.apply regenerator now chronicle.machine := by
  cases move with
  | turn kind => exact machine_turn regenerator now chronicle kind
  | submit | flush | shutdown | hangUp | alter => rfl

theorem machine_run (chronicle : Chronicle σ) (moves : List (Timestamp × Move σ)) :
    (chronicle.run regenerator moves).machine = chronicle.machine.play regenerator moves := by
  induction moves generalizing chronicle with
  | nil => rfl
  | cons entry rest ih => rw [run, ih, machine_step, Machine.play]

end

end Chronicle

/-! ### What a turn does -/

namespace Machine

/-- Nothing came of a turn that matters to a batch, and gathered changes are still there. -/
structure Quiet (before after : Machine σ) : Prop where
  settings : after.scheduler.settings = before.scheduler.settings
  waiting : after.scheduler.waiting = before.scheduler.waiting
  notices : after.scheduler.notices = before.scheduler.notices
  pending : before.scheduler.pending ≠ [] → after.scheduler.pending ≠ []
  workspace : after.workspace = before.workspace
  own : after.own = before.own

def beginning (machine : Machine σ) (now : Timestamp) (mailbox : List Command) (next : After) : Running × Machine σ :=
  let scheduler := { machine.scheduler with mailbox }
  let (batch, scheduler) := scheduler.begin now machine.plan next
  (batch, { machine with scheduler })

inductive Progress (regenerator : Regenerator σ) (now : Timestamp) (kind : Turn) (before : Machine σ) : Machine σ → Prop where
  | rests {after : Machine σ} (quiet : Quiet before after) : Progress regenerator now kind before after
  | begins (mailbox : List Command) (next : After) (free : before.scheduler.waiting = none)
      (gathered : before.scheduler.pending ≠ []) :
      Progress regenerator now kind before
        (execute regenerator now (before.beginning now mailbox next).1 (before.beginning now mailbox next).2)
  | resumes (waiting : Waiting) (woken : kind = .wake) (held : before.scheduler.waiting = some waiting)
      (due : waiting.due ≤ now) : Progress regenerator now kind before (resume regenerator now waiting before)

section
variable (regenerator : Regenerator σ) (now : Timestamp) (kind : Turn) (machine : Machine σ)

theorem Quiet.refl : Quiet machine machine :=
  ⟨rfl, rfl, rfl, id, rfl, rfl⟩

theorem apply_progress (mailbox : List Command) (free : machine.scheduler.waiting = none) (next : After) :
    Progress regenerator now kind machine
      (apply regenerator now next (machine.modify fun scheduler => { scheduler with mailbox })) := by
  simp only [apply]
  split
  next empty =>
    have empty : machine.scheduler.pending = [] := List.isEmpty_iff.mp empty
    refine .rests ⟨?_, Scheduler.waiting_proceed _ next, ?_, fun some => absurd empty some, rfl, rfl⟩
    · cases next <;> rfl
    · cases next <;> rfl
  next gathered =>
    have gathered : machine.scheduler.pending ≠ [] := fun empty => gathered (List.isEmpty_iff.mpr empty)
    exact .begins mailbox next free gathered

private theorem turn_progress : Progress regenerator now kind machine (kind.apply regenerator now machine) := by
  cases kind with
  | take =>
    simp only [Turn.apply, take]
    cases machine.scheduler.mailbox with
    | nil => exact .rests (.refl machine)
    | cons command rest =>
      dsimp only
      split
      next ready =>
        have free : machine.scheduler.waiting = none := by simpa using (Bool.and_eq_true_iff.mp ready).2
        cases command with
        | submit changes =>
          cases changes with
          | nil => exact .rests ⟨rfl, rfl, rfl, id, rfl, rfl⟩
          | cons change more =>
            refine .rests ⟨rfl, rfl, rfl, fun some => ?_, rfl, rfl⟩
            simp [carryOut, modify, Scheduler.gather]
        | flush ticket => exact apply_progress regenerator now _ machine rest free _
        | shutdown ticket => exact apply_progress regenerator now _ machine rest free _
        | hangUp => exact apply_progress regenerator now _ machine rest free _
      next => exact .rests (.refl machine)
  | wake =>
    simp only [Turn.apply, wake]
    cases held : machine.scheduler.waiting with
    | none => exact .rests (.refl machine)
    | some waiting =>
      dsimp only
      split
      next due => exact .resumes waiting rfl held due
      next => exact .rests (.refl machine)
  | closeWindow =>
    rw [Turn.apply, closeWindow_eq]
    split
    next expired =>
      exact apply_progress regenerator now _ machine machine.scheduler.mailbox (free_of_expired now expired) .gather
    next => exact .rests (.refl machine)

end

end Machine

/-! ### Accounts and records -/

def Notice.operation? : Notice → Option Operation
  | .started .. => none
  | .completed operation => some operation

namespace Scheduler

def operations (scheduler : Scheduler) : List Operation :=
  scheduler.notices.toList.filterMap Notice.operation?

private theorem operations_begin (scheduler : Scheduler) (now : Timestamp) (plan : Plan) (next : After) :
    (scheduler.begin now plan next).2.operations = scheduler.operations := by
  simp [operations, begin, Notice.operation?]

private theorem operations_conclude (scheduler : Scheduler) (now : Timestamp) (batch : Running) (failure : Option String) :
    (scheduler.conclude now batch failure).operations = scheduler.operations ++ [batch.record now failure] := by
  have told : (scheduler.conclude now batch failure).notices = scheduler.notices.push (.completed (batch.record now failure)) := by
    simp only [conclude]
    cases batch.after <;> rfl
  simp [operations, told, Notice.operation?]

private theorem history_conclude (scheduler : Scheduler) (now : Timestamp) (batch : Running) (failure : Option String) :
    (scheduler.conclude now batch failure).history.operations.getLast? = some (batch.record now failure) := by
  have kept : (scheduler.conclude now batch failure).history = scheduler.history.push (batch.record now failure) := by
    simp only [conclude]
    cases batch.after <;> rfl
  rw [kept, History.push, List.getLast?_concat]

private theorem settings_conclude (scheduler : Scheduler) (now : Timestamp) (batch : Running) (failure : Option String) :
    (scheduler.conclude now batch failure).settings = scheduler.settings := by
  simp only [conclude]
  cases batch.after <;> rfl

end Scheduler

/-- The plan was made for the sections that were registered when the batch was begun. -/
def Account.Planned (settings : Settings) (account : Account σ) : Prop :=
  ∃ cached changes, account.plan = Plan.ofChanges settings cached account.sections changes

section
variable (regenerator : Regenerator σ) (timely : Prop) (settings : Settings)

structure Finished.Records (finished : Finished σ) (operation : Operation) : Prop where
  planned : finished.account.Planned settings
  strategy : operation.strategy = finished.account.plan.strategy
  files : operation.files = finished.account.plan.changed
  sections : operation.sections = finished.account.plan.sections.map (·.id)
  startedAt : operation.startedAt = finished.account.startedAt
  recorded : finished.machine.scheduler.history.operations.getLast? = some operation
  ending : finished.account.Over regenerator timely settings.sectionDelay finished.machine.workspace.sections
    operation.failure operation.completedAt

namespace Chronicle

inductive Follows (machine : Machine σ) : Option (Account σ) → Prop where
  | free (free : machine.scheduler.waiting = none) : Follows machine none
  | busy {account : Account σ} {batch : Running} {stage : Stage} {due : Timestamp}
      (held : machine.scheduler.waiting = some ⟨batch, stage, due⟩)
      (same : batch.account account.sections account.log = account) (planned : account.Planned settings)
      (underway : account.Underway regenerator timely settings.sectionDelay machine.workspace.sections stage due) :
      Follows machine (some account)

structure Sound (chronicle : Chronicle σ) : Prop where
  fixed : chronicle.machine.scheduler.settings = settings
  current : Follows regenerator timely settings chronicle.machine chronicle.current
  operations : List.Forall₂ (Finished.Records regenerator timely settings) chronicle.finished
    chronicle.machine.scheduler.operations

variable {regenerator timely settings} {chronicle : Chronicle σ} {batch : Running} {now : Timestamp}
  {before : Scheduler} {after : Machine (σ × Log σ)} {sections : Sections}

/-- Whatever a batch has come to is told in the chronicle. -/
theorem follow_sound (told : List.Forall₂ (Finished.Records regenerator timely settings) chronicle.finished before.operations)
    (fixed : before.settings = settings) (planned : (batch.account sections after.own.2).Planned settings)
    (reached : Machine.Reached regenerator timely settings.sectionDelay sections batch now before after) :
    (chronicle.follow (batch.account sections after.own.2) (after.view Prod.fst)).Sound regenerator timely settings := by
  cases reached with
  | waits stage due held underway =>
    have scheduler : (after.view Prod.fst).scheduler = before.suspend batch stage due := held
    have busy : (after.view Prod.fst).scheduler.waiting = some ⟨batch, stage, due⟩ := by rw [scheduler]; rfl
    rw [follow, if_pos (by rw [busy]; rfl)]
    refine ⟨?_, .busy busy rfl planned underway, ?_⟩
    · rw [scheduler]
      exact fixed
    · rw [scheduler]
      exact told
  | ends failure concluded ending =>
    have scheduler : (after.view Prod.fst).scheduler = before.conclude now batch failure := concluded
    have free : (after.view Prod.fst).scheduler.waiting = none := by
      rw [scheduler]
      exact Scheduler.waiting_proceed _ _
    rw [follow, if_neg (by simp [free])]
    refine ⟨?_, .free free, ?_⟩
    · rw [scheduler]
      exact (Scheduler.settings_conclude before now batch failure).trans fixed
    · rw [scheduler, Scheduler.operations_conclude]
      have recorded : Finished.Records regenerator timely settings
          { account := batch.account sections after.own.2, machine := after.view Prod.fst }
          (batch.record now failure) := by
        refine ⟨planned, rfl, rfl, rfl, rfl, ?_, ending⟩
        rw [scheduler]
        exact Scheduler.history_conclude before now batch failure
      exact List.rel_append told (.cons recorded .nil)

/-- A batch that waits is not over because others alter what it works on. -/
theorem underway_altered {delay : Nat} {account : Account σ} {stage : Stage} {due : Timestamp} {registry : Sections}
    (underway : account.Underway regenerator timely delay registry stage due) (sections : Sections) :
    ({ account with log := account.log.add (.altered registry sections) } : Account σ).Underway regenerator timely delay
      sections stage due := by
  have same : (account.log.add (.altered registry sections)).attempts = account.log.attempts := by
    simp [Log.attempts, Log.add, Incident.attempt?]
  have stands {rest : List Job} {next : Timestamp} (slow : regenerator.Prompt → account.plan.strategy = .sections)
      (stands : account.Stands regenerator timely delay registry rest next) :
      ({ account with log := account.log.add (.altered registry sections) } : Account σ).Stands regenerator timely delay
        sections rest next :=
    ⟨.altered stands.course sections, by rw [same]; exact stands.well, by rw [same]; exact stands.left,
      fun prompt whole => absurd (slow prompt) whole⟩
  cases underway with
  | acting slow stood called later => exact .acting slow (stands (fun prompt => absurd prompt slow) stood) called later
  | @pausing rest _ some stood =>
    refine .pausing some (stands (fun _ => ?_) stood)
    obtain ⟨part, others, rfl⟩ := List.exists_cons_of_ne_nil some
    exact Plan.strategy_of_single part (by simp [stood.left])

private theorem alter_sound (sound : chronicle.Sound regenerator timely settings) (workspace : Workspace) (own : σ) :
    (chronicle.step regenerator now (.alter workspace own)).Sound regenerator timely settings := by
  refine ⟨sound.fixed, ?_, sound.operations⟩
  have current := sound.current
  simp only [step]
  cases doing : chronicle.current with
  | none =>
    rw [doing] at current
    cases current with
    | free free => exact .free free
  | some account =>
    rw [doing] at current
    cases current with
    | @busy _ batch stage due held same planned underway =>
      have plan : batch.plan = account.plan := congrArg Account.plan same
      have startedAt : batch.startedAt = account.startedAt := congrArg Account.startedAt same
      refine .busy held ?_ planned (underway_altered underway workspace.sections)
      simp only [Running.account, plan, startedAt]

private theorem pending_reached (reached : Machine.Reached regenerator timely settings.sectionDelay sections batch now before after) :
    (after.view Prod.fst).scheduler.pending = before.pending := by
  cases reached with
  | waits stage due held _ =>
    change after.scheduler.pending = before.pending
    rw [held]
    rfl
  | ends failure concluded _ =>
    change after.scheduler.pending = before.pending
    rw [concluded]
    exact Scheduler.pending_proceed _ _

/-- A turn that leaves gathered changes where they are goes on with what was going on. -/
theorem note_of_kept (kept : chronicle.machine.scheduler.pending ≠ [] → (after.view Prod.fst).scheduler.pending ≠ []) :
    chronicle.note now after = chronicle.goOn after.own.2 (after.view Prod.fst) := by
  rw [note]
  dsimp only
  rw [if_neg (by simpa using kept)]

/-- What does not matter to a batch leaves a chronicle as it is, up to its machine. -/
theorem Sound.with_machine (sound : chronicle.Sound regenerator timely settings) {machine : Machine σ}
    (fixed : machine.scheduler.settings = chronicle.machine.scheduler.settings)
    (waiting : machine.scheduler.waiting = chronicle.machine.scheduler.waiting)
    (notices : machine.scheduler.notices = chronicle.machine.scheduler.notices)
    (sections : machine.workspace.sections = chronicle.machine.workspace.sections) :
    ({ chronicle with machine } : Chronicle σ).Sound regenerator timely settings := by
  have told : machine.scheduler.operations = chronicle.machine.scheduler.operations :=
    congrArg (fun notices => notices.toList.filterMap Notice.operation?) notices
  refine ⟨fixed.trans sound.fixed, ?_, told ▸ sound.operations⟩
  have current := sound.current
  dsimp only
  generalize chronicle.current = doing at current
  cases current with
  | free free => exact .free (waiting.trans free)
  | busy held same planned underway => exact .busy (waiting.trans held) same planned (sections ▸ underway)

private theorem rest_sound (sound : chronicle.Sound regenerator timely settings) (quiet : Machine.Quiet chronicle.logged after) :
    (chronicle.note now after).Sound regenerator timely settings := by
  have waiting : (after.view Prod.fst).scheduler.waiting = chronicle.machine.scheduler.waiting := quiet.waiting
  have log : after.own.2 = chronicle.log := congrArg Prod.snd quiet.own
  have same : chronicle.note now after = { chronicle with machine := after.view Prod.fst } := by
    have current := sound.current
    rw [note_of_kept quiet.pending, goOn]
    cases doing : chronicle.current with
    | none => rfl
    | some account =>
      rw [doing] at current
      cases current with
      | busy held _ _ _ =>
        rw [Chronicle.log, doing] at log
        dsimp only
        rw [follow, if_pos (by rw [waiting, held]; rfl), log]
        rfl
  rw [same]
  exact sound.with_machine quiet.settings waiting quiet.notices (congrArg Workspace.sections quiet.workspace)

private theorem begin_sound (sound : chronicle.Sound regenerator timely settings) (mailbox : List Command) (next : After)
    (free : chronicle.machine.scheduler.waiting = none) (gathered : chronicle.machine.scheduler.pending ≠ []) :
    let begun := chronicle.logged.beginning now mailbox next
    (chronicle.note now (Machine.execute regenerator.logging now begun.1 begun.2)).Sound regenerator timely settings := by
  intro begun
  have unlogged : chronicle.log = {} := by
    have current := sound.current
    rw [log]
    generalize chronicle.current = doing at current
    cases current with
    | free => rfl
    | busy held => exact absurd (held.symm.trans free) (Option.some_ne_none _)
  have told : List.Forall₂ (Finished.Records regenerator timely settings) chronicle.finished begun.2.scheduler.operations := by
    have same := Scheduler.operations_begin { chronicle.machine.scheduler with mailbox } now chronicle.machine.plan next
    exact same ▸ sound.operations
  have fixed : begun.2.scheduler.settings = settings := sound.fixed
  have reached : Machine.Reached regenerator timely settings.sectionDelay chronicle.machine.workspace.sections begun.1 now
      begun.2.scheduler (Machine.execute regenerator.logging now begun.1 begun.2) :=
    Machine.execute_reached regenerator rfl (congrArg Log.incidents unlogged) (congrArg Settings.sectionDelay fixed) rfl
  have closed : ((Machine.execute regenerator.logging now begun.1 begun.2).view Prod.fst).scheduler.pending = [] :=
    pending_reached reached
  have some : chronicle.machine.scheduler.pending.isEmpty = false := List.isEmpty_eq_false_iff.mpr gathered
  rw [note]
  dsimp only
  rw [if_pos (by rw [some, closed]; rfl)]
  refine follow_sound told fixed ⟨chronicle.machine.workspace.artifacts.length, chronicle.machine.scheduler.pending, ?_⟩ reached
  rw [← sound.fixed]
  rfl

private theorem resume_sound (sound : chronicle.Sound regenerator timely settings) {waiting : Waiting}
    (held : chronicle.machine.scheduler.waiting = some waiting) (ends : Meets timely waiting.due now) :
    (chronicle.note now (Machine.resume regenerator.logging now waiting chronicle.logged)).Sound regenerator timely settings := by
  have current := sound.current
  generalize doing : chronicle.current = current at current
  cases current with
  | free free => exact absurd (held.symm.trans free) (Option.some_ne_none _)
  | @busy account batch stage due busy same planned underway =>
    cases held.symm.trans busy
    have log : chronicle.log = account.log := by
      rw [Chronicle.log, doing]
      rfl
    have waits : (batch.account account.sections chronicle.logged.own.2).Underway regenerator timely settings.sectionDelay
        chronicle.logged.workspace.sections stage due := by
      change (batch.account account.sections chronicle.log).Underway _ _ _ _ _ _
      rw [log, same]
      exact underway
    have plan : batch.plan = account.plan := congrArg Account.plan same
    have startedAt : batch.startedAt = account.startedAt := congrArg Account.startedAt same
    have reached := Machine.resume_reached regenerator waits ends (congrArg Settings.sectionDelay sound.fixed)
    generalize Machine.resume regenerator.logging now ⟨batch, stage, due⟩ chronicle.logged = after at reached
    have kept : (after.view Prod.fst).scheduler.pending = chronicle.machine.scheduler.pending := pending_reached reached
    have continued : ({ account with log := after.own.2 } : Account σ) = batch.account account.sections after.own.2 := by
      rw [Running.account, plan, startedAt]
    rw [note_of_kept (by rw [kept]; exact id), goOn, doing]
    dsimp only
    rw [continued]
    obtain ⟨cached, changes, made⟩ := planned
    exact follow_sound sound.operations sound.fixed ⟨cached, changes, plan.trans made⟩ reached

private theorem turn_sound (sound : chronicle.Sound regenerator timely settings) (kind : Machine.Turn)
    (intime : timely → (Move.turn kind).InTime now chronicle.machine) :
    (chronicle.turn regenerator now kind).Sound regenerator timely settings := by
  have progress := Machine.turn_progress regenerator.logging now kind chronicle.logged
  rw [turn]
  generalize kind.apply regenerator.logging now chronicle.logged = after at progress ⊢
  cases progress with
  | rests quiet => exact rest_sound sound quiet
  | begins mailbox next free gathered => exact begin_sound sound mailbox next free gathered
  | resumes waiting woken held due =>
    exact resume_sound sound held ⟨due, fun kept => intime kept waiting held (congrArg Move.turn woken) due⟩

private theorem send_sound (sound : chronicle.Sound regenerator timely settings) (command : Command) :
    ({ chronicle with machine := chronicle.machine.receive (chronicle.machine.scheduler.send command) } :
      Chronicle σ).Sound regenerator timely settings := by
  rw [Scheduler.send]
  split
  · exact sound.with_machine rfl rfl rfl rfl
  · exact sound

private theorem ask_sound (sound : chronicle.Sound regenerator timely settings) (command : Ticket → Command) :
    ({ chronicle with machine := chronicle.machine.receive ((chronicle.machine.scheduler.ask command).map (·.2)) } :
      Chronicle σ).Sound regenerator timely settings := by
  rw [Scheduler.ask, Scheduler.send]
  split
  · exact sound.with_machine rfl rfl rfl rfl
  · exact sound

private theorem step_sound (sound : chronicle.Sound regenerator timely settings) (move : Move σ)
    (intime : timely → move.InTime now chronicle.machine) :
    (chronicle.step regenerator now move).Sound regenerator timely settings := by
  cases move with
  | submit changes => exact send_sound sound _
  | flush => exact ask_sound sound _
  | shutdown => exact ask_sound sound _
  | hangUp => exact send_sound sound _
  | alter workspace own => exact alter_sound sound workspace own
  | turn kind => exact turn_sound sound kind intime

theorem run_sound (sound : chronicle.Sound regenerator timely settings) (moves : List (Timestamp × Move σ))
    (punctual : timely → chronicle.machine.Punctual regenerator moves) :
    (chronicle.run regenerator moves).Sound regenerator timely settings := by
  induction moves generalizing chronicle with
  | nil => exact sound
  | cons entry rest ih =>
    obtain ⟨now, move⟩ := entry
    refine ih (step_sound sound move fun kept => (punctual kept).1) fun kept => ?_
    rw [machine_step]
    exact (punctual kept).2

def fresh (settings : Settings) (workspace : Workspace) (own : σ) : Chronicle σ :=
  { machine := { scheduler := .new settings, workspace, own } }

theorem fresh_sound (settings : Settings) (workspace : Workspace) (own : σ) :
    (fresh settings workspace own).Sound regenerator timely settings :=
  ⟨rfl, .free rfl, .nil⟩

end Chronicle

end

end FreshDocs.Batch
