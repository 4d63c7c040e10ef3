import FreshDocs.Proofs.BatchAccounting
import Mathlib.Logic.Relation

/-! The open batch of a scheduler and the phase that it publishes belong together. Pending changes, the
time of opening, the deadline, and the phase are kept up to date by every way in which a scheduler
changes, and a batch is applied only after it was gathered. -/

namespace FreshDocs.Batch

variable {σ : Type}

def Phase.next : Phase → List Phase
  | .idle => [.idle, .batching]
  | .batching => [.batching, .executing]
  | .executing => [.executing, .idle]

theorem Phase.self_mem_next (phase : Phase) : phase ∈ phase.next := by
  cases phase <;> simp [next]

/-- One thing that happens to a scheduler. A phase is published at most once by each. -/
inductive Shift (before : Scheduler) : Scheduler → Prop where
  | receives (command : Command) (nextTicket : Ticket) :
      Shift before { before with mailbox := before.mailbox ++ [command], nextTicket }
  | takes (command : Command) (rest : List Command) (first : before.mailbox = command :: rest)
      (none : command.changes = []) : Shift before { before with mailbox := rest }
  | gathers (now : Timestamp) (changes : List Change) (rest : List Command)
      (first : before.mailbox = .submit changes :: rest) (some : changes ≠ []) :
      Shift before (({ before with mailbox := rest } : Scheduler).gather now changes)
  | begins (now : Timestamp) (plan : Plan) (next : After) (gathered : before.pending ≠ []) :
      Shift before (before.begin now plan next).2
  | suspends (batch : Running) (stage : Stage) (due : Timestamp) : Shift before (before.suspend batch stage due)
  | concludes (now : Timestamp) (batch : Running) (failure : Option String) :
      Shift before (before.conclude now batch failure)
  | proceeds (next : After) (empty : before.pending = []) : Shift before (before.proceed next)

/-- One thing that happens to a scheduler, and that is told in due order. -/
structure Link (before after : Scheduler) : Prop where
  shift : Shift before after
  phase : after.phase ∈ before.phase.next

/-- When a batch closes into which changes came at these times. -/
def Settings.closing? (settings : Settings) : List Timestamp → Option Timestamp
  | [] => none
  | first :: rest =>
    some (Timestamp.earlier ((rest.getLastD first).addMillis settings.window) (first.addMillis settings.longestWait))

theorem Settings.closing?_eq_none {settings : Settings} {times : List Timestamp} :
    settings.closing? times = none ↔ times = [] := by
  cases times <;> simp [closing?]

namespace Scheduler

structure Closed (settings : Settings) (scheduler : Scheduler) : Prop where
  fixed : scheduler.settings = settings
  pending : scheduler.pending = []
  opened : scheduler.openedAt = none
  deadline : scheduler.deadline = none

/-- The batch is open into which changes came at these times, or none is open if there are no such times. -/
structure Tracks (settings : Settings) (arrivals : List Timestamp) (scheduler : Scheduler) : Prop where
  fixed : scheduler.settings = settings
  pending : scheduler.pending = [] ↔ arrivals = []
  opened : scheduler.openedAt = arrivals.head?
  deadline : scheduler.deadline = settings.closing? arrivals
  phase : scheduler.phase =
    if scheduler.waiting.isSome then .executing else if arrivals = [] then .idle else .batching
  alone : scheduler.waiting.isSome → arrivals = []

/-- A scheduler comes from another one link by link. -/
structure Reaches (settings : Settings) (arrivals : List Timestamp) (before after : Scheduler) : Prop where
  tracks : after.Tracks settings arrivals
  chain : Relation.ReflTransGen Link before after

section
variable {settings : Settings} {arrivals : List Timestamp} {scheduler : Scheduler}

theorem Tracks.reaches (tracks : scheduler.Tracks settings arrivals) : Reaches settings arrivals scheduler scheduler :=
  ⟨tracks, .refl⟩

theorem Tracks.closed (tracks : scheduler.Tracks settings []) : scheduler.Closed settings :=
  ⟨tracks.fixed, tracks.pending.mpr rfl, tracks.opened, tracks.deadline⟩

theorem Tracks.mail (tracks : scheduler.Tracks settings arrivals) (mailbox : List Command) (nextTicket : Ticket) :
    ({ scheduler with mailbox, nextTicket } : Scheduler).Tracks settings arrivals :=
  ⟨tracks.fixed, tracks.pending, tracks.opened, tracks.deadline, tracks.phase, tracks.alone⟩

theorem Tracks.push (tracks : scheduler.Tracks settings arrivals) (command : Command) (nextTicket : Ticket) :
    Reaches settings arrivals scheduler { scheduler with mailbox := scheduler.mailbox ++ [command], nextTicket } :=
  ⟨tracks.mail _ _, .single ⟨.receives command nextTicket, Phase.self_mem_next _⟩⟩

theorem Tracks.executing (tracks : scheduler.Tracks settings arrivals) {waiting : Waiting}
    (held : scheduler.waiting = some waiting) : scheduler.Closed settings ∧ scheduler.phase = .executing := by
  have some : scheduler.waiting.isSome := by rw [held]; rfl
  have phase := tracks.phase
  rw [if_pos some] at phase
  have none := tracks.alone some
  subst none
  exact ⟨tracks.closed, phase⟩

theorem Tracks.free (tracks : scheduler.Tracks settings arrivals) (some : arrivals ≠ []) : scheduler.waiting = none := by
  cases held : scheduler.waiting with
  | none => rfl
  | some waiting => exact absurd (tracks.alone (by simp [held])) some

theorem Tracks.idle_or_batching (tracks : scheduler.Tracks settings arrivals) (free : scheduler.waiting = none) :
    scheduler.phase = if arrivals = [] then .idle else .batching := by
  have phase := tracks.phase
  rwa [free, if_neg (by simp)] at phase

theorem Tracks.batching_mem_next (tracks : scheduler.Tracks settings arrivals) (free : scheduler.waiting = none) :
    .batching ∈ scheduler.phase.next := by
  rw [tracks.idle_or_batching free]
  split <;> simp [Phase.next]

private theorem phase_proceed (scheduler : Scheduler) (next : After) : (scheduler.proceed next).phase = .idle := by
  cases next <;> rfl

/-- Once a scheduler goes on, no batch is open, and none is applied. -/
theorem Closed.proceed (closed : scheduler.Closed settings) (free : scheduler.waiting = none) (next : After) :
    (scheduler.proceed next).Tracks settings [] := by
  have kept : (scheduler.proceed next).Closed settings := by
    cases next <;> exact ⟨closed.fixed, closed.pending, closed.opened, closed.deadline⟩
  have still : (scheduler.proceed next).waiting = none := (waiting_proceed scheduler next).trans free
  refine ⟨kept.fixed, ?_, kept.opened, kept.deadline, ?_, fun _ => rfl⟩
  · simp [kept.pending]
  · rw [phase_proceed, still]
    rfl

theorem Closed.suspend (closed : scheduler.Closed settings) (shown : scheduler.phase = .executing) (batch : Running)
    (stage : Stage) (due : Timestamp) : (scheduler.suspend batch stage due).Tracks settings [] := by
  refine ⟨closed.fixed, ?_, closed.opened, closed.deadline, shown, fun _ => rfl⟩
  exact ⟨fun _ => rfl, fun _ => closed.pending⟩

theorem Closed.conclude (closed : scheduler.Closed settings) (now : Timestamp) (batch : Running)
    (failure : Option String) : (scheduler.conclude now batch failure).Tracks settings [] := by
  apply Closed.proceed
  · exact ⟨closed.fixed, closed.pending, closed.opened, closed.deadline⟩
  · rfl

theorem Tracks.begin (tracks : scheduler.Tracks settings arrivals) (now : Timestamp) (plan : Plan) (next : After) :
    (scheduler.begin now plan next).2.Closed settings :=
  ⟨tracks.fixed, rfl, rfl, rfl⟩

/-- The quiet time starts again with every gathered change, and the longest wait with the first one. -/
theorem Tracks.gather (tracks : scheduler.Tracks settings arrivals) (free : scheduler.waiting = none) (now : Timestamp)
    {changes : List Change} (some : changes ≠ []) :
    (scheduler.gather now changes).Tracks settings (arrivals ++ [now]) := by
  have opened : scheduler.openedAt.getD now = (arrivals ++ [now]).headD now := by
    rw [tracks.opened]
    cases arrivals <;> rfl
  constructor
  · exact tracks.fixed
  · simp [Scheduler.gather, some]
  · simp only [Scheduler.gather, opened]
    cases arrivals <;> rfl
  · simp only [Scheduler.gather, opened, tracks.fixed]
    cases arrivals with
    | nil => rfl
    | cons first rest => simp [Settings.closing?]
  · simp [Scheduler.gather, free]
  · simp [Scheduler.gather, free]

end

end Scheduler

section
variable {settings : Settings} {arrivals : List Timestamp} {before after : Scheduler} {outcomes : List Outcome}

theorem Ran.reaches {batch : Running} (closed : before.Closed settings) (shown : before.phase = .executing)
    (ran : Ran batch before outcomes after) : Scheduler.Reaches settings [] before after := by
  cases ran with
  | waits stage due well =>
    refine ⟨closed.suspend shown batch stage due, .single ⟨.suspends batch stage due, ?_⟩⟩
    simp [Scheduler.suspend, shown, Phase.next]
  | ends now failure honest =>
    refine ⟨closed.conclude now batch failure, .single ⟨.concludes now batch failure, ?_⟩⟩
    simp [Scheduler.conclude, Scheduler.phase_proceed, shown, Phase.next]

/-- A batch is begun only while the scheduler is batching. -/
theorem Applied.reaches {next : After} (tracks : before.Tracks settings arrivals) (free : before.waiting = none)
    (applied : Applied next before outcomes after) : Scheduler.Reaches settings [] before after := by
  have shown := tracks.idle_or_batching free
  cases applied with
  | nothing empty =>
    have none := tracks.pending.mp empty
    subst none
    refine ⟨tracks.closed.proceed free next, .single ⟨.proceeds next empty, ?_⟩⟩
    simp [Scheduler.phase_proceed, shown, Phase.next]
  | batch now plan outcomes after gathered covers ran =>
    have some : arrivals ≠ [] := fun none => gathered (tracks.pending.mpr none)
    have begun : Link before (before.begin now plan next).2 := by
      refine ⟨.begins now plan next gathered, ?_⟩
      simp [Scheduler.begin, shown, some, Phase.next]
    have reaches := ran.reaches (tracks.begin now plan next) rfl
    exact ⟨reaches.tracks, .head begun reaches.chain⟩

end

namespace Machine
variable (regenerator : Regenerator σ) (now : Timestamp) {machine : Machine σ} {settings : Settings}
  {arrivals : List Timestamp}

theorem apply_reaches (tracks : machine.scheduler.Tracks settings arrivals) (free : machine.scheduler.waiting = none)
    (next : After) :
    Scheduler.Reaches settings [] machine.scheduler (apply regenerator now next machine).scheduler := by
  obtain ⟨outcomes, -, applied⟩ := apply_applies regenerator now machine.recorded next
  have same := forget_apply regenerator now machine.recorded next
  rw [← forget_recorded machine, ← same]
  exact applied.reaches tracks free

theorem resume_reaches (tracks : machine.scheduler.Tracks settings arrivals) {waiting : Waiting}
    (held : machine.scheduler.waiting = some waiting) :
    Scheduler.Reaches settings [] machine.scheduler (resume regenerator now waiting machine).scheduler := by
  obtain ⟨closed, shown⟩ := tracks.executing held
  obtain ⟨outcomes, -, ran⟩ := resume_runs regenerator now machine.recorded waiting
  have same := forget_resume regenerator now machine.recorded waiting
  rw [← forget_recorded machine, ← same]
  exact ran.reaches closed shown

end Machine

end FreshDocs.Batch
