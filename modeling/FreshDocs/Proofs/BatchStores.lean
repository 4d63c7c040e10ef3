import FreshDocs.Proofs.BatchRuns
import FreshDocs.Proofs.BatchWorkspace

/-! What holds of the workspace while a scheduler runs, told along with the changes that were applied so
far. Changes come to be applied in one way only: a batch is made of them, and drops what no longer
holds before the regenerator is let at the workspace. -/

namespace FreshDocs.Batch

variable {σ : Type}

/-- No changes are left gathered once they are applied. -/
theorem Applied.pending {next : After} {before after : Scheduler} {outcomes : List Outcome}
    (applied : Applied next before outcomes after) : after.pending = [] := by
  cases applied with
  | nothing empty => exact (Scheduler.pending_proceed _ _).trans empty
  | batch now plan outcomes after gathered covers ran => exact ran.pending

namespace Machine

private theorem pending_apply (regenerator : Regenerator σ) (now : Timestamp) (next : After) (machine : Machine σ) :
    (apply regenerator now next machine).scheduler.pending = [] := by
  obtain ⟨outcomes, -, applied⟩ := apply_applies regenerator now machine.recorded next
  have same := forget_apply regenerator now machine.recorded next
  rw [← forget_recorded machine, ← same]
  exact applied.pending

private theorem pending_resume (regenerator : Regenerator σ) (now : Timestamp) (waiting : Waiting) (machine : Machine σ) :
    (resume regenerator now waiting machine).scheduler.pending = machine.scheduler.pending := by
  obtain ⟨outcomes, -, ran⟩ := resume_runs regenerator now machine.recorded waiting
  have same := forget_resume regenerator now machine.recorded waiting
  rw [← forget_recorded machine, ← same]
  exact ran.pending

end Machine

/-- A property of the applied changes and the workspace that batches keep, as long as no more changes are
handed in and up to a time. -/
structure Regenerator.Carries (regenerator : Regenerator σ) (handed : List Change) (limit : Timestamp)
    (holds : List Change → Workspace → Prop) : Prop where
  keeps : ∀ executed, executed <+: handed → regenerator.Keeps (holds executed)
  drops : ∀ {executed : List Change} {workspace : Workspace} {now : Timestamp}, now ≤ limit → holds executed workspace →
    ∀ (settings : Settings) (cached : Nat) (sections : Sections) (changes : List Change),
      holds (executed ++ changes) (Machine.invalidate now settings (.ofChanges settings cached sections changes) workspace)

namespace Trace

theorem executed_note_quiet {trace : Trace σ} {machine : Machine σ} (outcomes : List Outcome)
    (kept : machine.scheduler.pending = [] → trace.machine.scheduler.pending = []) :
    (trace.note machine outcomes).executed = trace.executed := by
  have quiet : (!trace.machine.scheduler.pending.isEmpty && machine.scheduler.pending.isEmpty) = false := by
    cases shape : machine.scheduler.pending with
    | nil => simp [kept shape]
    | cons change more => simp
  simp only [note, quiet, Bool.false_eq_true, if_false]
  cases held : trace.current with
  | none => simp [executed, held]
  | some round =>
    rw [executed_follow]
    simp [executed, held]

private theorem executed_note_begun {trace : Trace σ} {machine : Machine σ} (outcomes : List Outcome) (idle : trace.current = none)
    (gathered : trace.machine.scheduler.pending ≠ []) (gone : machine.scheduler.pending = []) :
    (trace.note machine outcomes).executed = trace.executed ++ trace.machine.scheduler.pending := by
  rw [note_begun outcomes gathered gone, executed_follow]
  simp [executed, idle]

theorem executed_prefix (trace : Trace σ) : trace.executed <+: trace.handed :=
  List.prefix_append _ _

/-- A property that is carried through a run between two moments at which changes are handed in. -/
structure Carried (handed : List Change) (holds : List Change → Workspace → Prop) (trace : Trace σ) : Prop where
  aligned : trace.Aligned
  handed : trace.handed = handed
  holds : holds trace.executed trace.machine.workspace

section
variable {regenerator : Regenerator σ} {handed : List Change} {limit now : Timestamp}
  {holds : List Change → Workspace → Prop} {trace : Trace σ}

theorem apply_carried (carries : regenerator.Carries handed limit holds) (timely : now ≤ limit)
    (carried : trace.Carried handed holds) (free : trace.machine.scheduler.waiting = none) (mailbox : List Command)
    (next : After) (outcomes : List Outcome) :
    let applied := Machine.apply regenerator now next (trace.machine.modify ({ · with mailbox }))
    holds (trace.note applied outcomes).executed applied.workspace := by
  intro applied
  by_cases gathered : trace.machine.scheduler.pending = []
  · have same : applied.workspace = trace.machine.workspace := by
      simp [applied, Machine.apply, Machine.modify, gathered]
    rw [executed_note_quiet outcomes fun _ => gathered, same]
    exact carried.holds
  · have within : trace.executed ++ trace.machine.scheduler.pending <+: handed := by
      rw [← carried.handed, Trace.handed, ← List.append_assoc]
      exact List.prefix_append _ _
    have gone := Machine.pending_apply regenerator now next (trace.machine.modify ({ · with mailbox }))
    rw [executed_note_begun outcomes (carried.aligned.current_none free) gathered gone]
    exact Machine.apply_keeps (carries.keeps _ within) now next gathered (carries.drops timely carried.holds _ _ _ _)

theorem turn_carried (carries : regenerator.Carries handed limit holds) (timely : now ≤ limit)
    (carried : trace.Carried handed holds) (kind : Machine.Turn) : (trace.turn regenerator now kind).Carried handed holds := by
  have follows := turn_follows regenerator now carried.aligned kind
  refine ⟨follows.aligned, follows.handed.trans carried.handed, ?_⟩
  rw [machine_turn, turn]
  generalize kind.outcomes regenerator now trace.machine = outcomes
  have rests : holds (trace.note trace.machine outcomes).executed trace.machine.workspace := by
    rw [executed_note_quiet outcomes id]
    exact carried.holds
  cases kind with
  | take =>
    simp only [Machine.Turn.apply, Machine.take]
    cases trace.machine.scheduler.mailbox with
    | nil => exact rests
    | cons command rest =>
      dsimp only
      split
      next ready =>
        have free : trace.machine.scheduler.waiting = none := by simpa using (Bool.and_eq_true_iff.mp ready).2
        cases command with
        | submit changes =>
          cases changes with
          | nil =>
            rw [executed_note_quiet outcomes (by exact id)]
            exact carried.holds
          | cons change more =>
            rw [executed_note_quiet outcomes fun none => (List.append_eq_nil_iff.mp none).1]
            exact carried.holds
        | flush ticket => exact apply_carried carries timely carried free rest _ outcomes
        | shutdown ticket => exact apply_carried carries timely carried free rest _ outcomes
        | hangUp => exact apply_carried carries timely carried free rest _ outcomes
      next => exact rests
  | wake =>
    simp only [Machine.Turn.apply, Machine.wake]
    split
    next waiting held =>
      split
      · have same := Machine.pending_resume regenerator now waiting trace.machine
        rw [executed_note_quiet outcomes fun empty => same.symm.trans empty]
        have within : trace.executed <+: handed := carried.handed ▸ trace.executed_prefix
        exact Machine.resume_keeps (carries.keeps _ within) now waiting carried.holds
      · exact rests
    next => exact rests
  | closeWindow =>
    simp only [Machine.Turn.apply, Machine.closeWindow]
    split
    next deadline free due =>
      split
      · exact apply_carried carries timely carried free trace.machine.scheduler.mailbox .gather outcomes
      · exact rests
    next => exact rests

private theorem drain_carried (carries : regenerator.Carries handed limit holds) (timely : now ≤ limit)
    (carried : trace.Carried handed holds) (count : Nat) : (drain regenerator now count trace).Carried handed holds := by
  induction count generalizing trace with
  | zero => exact carried
  | succ count ih => exact ih (turn_carried carries timely carried .take)

theorem settle_carried (carries : regenerator.Carries handed limit holds) (timely : now ≤ limit)
    (carried : trace.Carried handed holds) : (trace.settle regenerator now).Carried handed holds :=
  turn_carried carries timely (drain_carried carries timely (turn_carried carries timely carried .wake) _) .closeWindow

theorem advance_carried (carries : regenerator.Carries handed limit holds) {target : Timestamp} (timely : target ≤ limit)
    (carried : trace.Carried handed holds) : ((clockwork regenerator).run now target trace).Carried handed holds := by
  refine Clockwork.run_keeps ?_ now carried
  intro time state due carried
  exact settle_carried carries (Int.le_trans due timely) carried

end

end Trace
end FreshDocs.Batch
