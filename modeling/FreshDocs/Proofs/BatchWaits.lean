import FreshDocs.Proofs.BatchShutdown
import FreshDocs.Proofs.BatchWindows
import FreshDocs.Proofs.SortedMaps

/-! How often a scheduler has to be waited for. A batch waits for its regenerator and between its sections, and each
command in the mailbox can make one more batch. Once the scheduler was asked to stop, every wait leaves fewer. -/

namespace FreshDocs

theorem Sections.length_all (sections : Sections) : sections.all.length = sections.count := by
  rw [all, SortedMap.values_eq_map, List.length_map, Std.ExtTreeMap.length_toList, count]

theorem Sections.count_markUpdated (sections : Sections) (id : String) (now : Timestamp) :
    (sections.markUpdated id now).count = sections.count := by
  unfold markUpdated
  split
  next part found =>
    have present : part.id ∈ sections.byId := by
      rw [sections.filed id part found, Std.ExtTreeMap.mem_iff_isSome_getElem?]
      exact Option.isSome_of_eq_some found
    simp [count, register, Std.ExtTreeMap.size_insert, present]
  next => rfl

namespace Batch
open Relation

variable {σ : Type}

/-- What work on batches does to a workspace and to what the regenerator has of its own, one thing at a time. -/
inductive Regenerator.Works (regenerator : Regenerator σ) : Workspace × σ → Workspace × σ → Prop where
  | starts (job : Job) (now : Timestamp) (workspace : Workspace) (own : σ) :
      Works regenerator (workspace, own) (workspace, (regenerator.start job now own).2)
  | acts (job : Job) (now : Timestamp) (world : Workspace × σ) : Works regenerator world (regenerator.act job now world).2
  | stamps (id : String) (now : Timestamp) (workspace : Workspace) (own : σ) :
      Works regenerator (workspace, own) ({ workspace with sections := workspace.sections.markUpdated id now }, own)
  | drops (now : Timestamp) (settings : Settings) (plan : Plan) (workspace : Workspace) (own : σ) :
      Works regenerator (workspace, own) (Machine.invalidate now settings plan workspace, own)

def Stage.waits : Stage → Nat
  | .acting _ rest => 2 * rest.length + 2
  | .pausing rest => 2 * rest.length + 1

namespace Machine

def world (machine : Machine σ) : Workspace × σ :=
  (machine.workspace, machine.own)

/-- The second machine comes from the first by work on a batch, for which there is to be waited so often at most. -/
structure Spends (regenerator : Regenerator σ) (batch : Running) (bound : Nat) (before after : Machine σ) : Prop where
  world : ReflTransGen regenerator.Works before.world after.world
  mailbox : after.scheduler.mailbox.length ≤ before.scheduler.mailbox.length
  waiting : ∀ waiting, after.scheduler.waiting = some waiting → waiting.batch = batch ∧ waiting.stage.waits ≤ bound

section
variable {regenerator : Regenerator σ} {now : Timestamp} {batch : Running} {bound : Nat}
  {before middle after : Machine σ}

/-- Other work may come first, as long as the scheduler has no part in it. -/
theorem Spends.since {more : Nat} (works : ReflTransGen regenerator.Works before.world middle.world)
    (same : middle.scheduler = before.scheduler) (spends : Spends regenerator batch bound middle after)
    (less : bound ≤ more) : Spends regenerator batch more before after :=
  ⟨works.trans spends.world, same ▸ spends.mailbox, fun waiting held =>
    ⟨(spends.waiting waiting held).1, Nat.le_trans (spends.waiting waiting held).2 less⟩⟩

private theorem length_mailbox_proceed (scheduler : Scheduler) (next : After) :
    (scheduler.proceed next).mailbox.length ≤ scheduler.mailbox.length := by
  cases next <;> simp [Scheduler.proceed]

variable (regenerator now batch)

theorem conclude_spends (failure : Option String) (machine : Machine σ) :
    Spends regenerator batch bound machine (machine.modify (·.conclude now batch failure)) := by
  refine ⟨.refl, length_mailbox_proceed _ _, fun waiting held => ?_⟩
  have closed : (machine.scheduler.conclude now batch failure).waiting = none := Scheduler.waiting_proceed _ _
  rw [modify, closed] at held
  cases held

private theorem suspend_spends {stage : Stage} (due : Timestamp) (within : stage.waits ≤ bound) (machine : Machine σ) :
    Spends regenerator batch bound machine (machine.modify (·.suspend batch stage due)) := by
  refine ⟨.refl, Nat.le_refl _, fun waiting held => ?_⟩
  cases held
  exact ⟨rfl, within⟩

private theorem pause_spends (rest : List Section) (machine : Machine σ) :
    Spends regenerator batch (2 * rest.length + 1) machine (pause now batch rest machine) := by
  simp only [pause, modify]
  split
  · exact conclude_spends regenerator now batch none machine
  · exact suspend_spends regenerator batch _ (Nat.le_refl (Stage.pausing rest).waits) machine

private theorem actSection_works (part : Section) (machine : Machine σ) :
    ReflTransGen regenerator.Works machine.world (actSection regenerator now part machine).2.world ∧
      (actSection regenerator now part machine).2.scheduler = machine.scheduler := by
  have acted : regenerator.Works machine.world (act regenerator now (.single part) machine).2.world := .acts _ now _
  have same : (act regenerator now (.single part) machine).2.scheduler = machine.scheduler := rfl
  rw [actSection]
  generalize act regenerator now (.single part) machine = result at acted same
  obtain ⟨failure, acting⟩ := result
  cases failure with
  | some failure => exact ⟨.single acted, same⟩
  | none => exact ⟨.tail (.single acted) (.stamps part.id now _ _), same⟩

/-- After a section there is to be waited for the sections that are left. -/
theorem spends_of_section (part : Section) (rest : List Section) (machine : Machine σ)
    (sections : ∀ acted, Spends regenerator batch (2 * rest.length) acted (runSections regenerator now batch rest acted)) :
    Spends regenerator batch (2 * rest.length + 1) machine
      (match actSection regenerator now part machine with
      | (some failure, machine) => machine.modify (·.conclude now batch (some failure))
      | (none, machine) =>
        if machine.scheduler.settings.sectionDelay = 0 then runSections regenerator now batch rest machine
        else pause now batch rest machine) := by
  obtain ⟨works, same⟩ := actSection_works regenerator now part machine
  generalize actSection regenerator now part machine = result at works same
  obtain ⟨failure, acted⟩ := result
  cases failure with
  | some failure => exact .since works same (conclude_spends regenerator now batch (some failure) acted) (Nat.le_refl _)
  | none =>
    dsimp only
    split
    · exact .since works same (sections acted) (Nat.le_succ _)
    · exact .since works same (pause_spends regenerator now batch rest acted) (Nat.le_refl _)

private theorem runSections_spends (parts : List Section) (machine : Machine σ) :
    Spends regenerator batch (2 * parts.length) machine (runSections regenerator now batch parts machine) := by
  induction parts generalizing machine with
  | nil => exact conclude_spends regenerator now batch none machine
  | cons part rest ih =>
    have started : regenerator.Works machine.world (start regenerator now (.single part) machine).2.world :=
      .starts (.single part) now _ _
    have same : (start regenerator now (.single part) machine).2.scheduler = machine.scheduler := rfl
    rw [List.length_cons]
    simp only [runSections]
    split
    · exact .since (.single started) same (spends_of_section regenerator now batch part rest _ ih) (by omega)
    · have suspended := suspend_spends regenerator batch (now.addMillis (start regenerator now (.single part) machine).1)
        (Nat.le_refl (Stage.acting (.single part) rest).waits) (start regenerator now (.single part) machine).2
      exact .since (.single started) same suspended (by rw [Stage.waits]; omega)

private theorem runJob_spends (job : Job) (machine : Machine σ) :
    Spends regenerator batch 2 machine (runJob regenerator now batch job machine) := by
  have started : regenerator.Works machine.world (start regenerator now job machine).2.world := .starts job now _ _
  have same : (start regenerator now job machine).2.scheduler = machine.scheduler := rfl
  simp only [runJob]
  split
  · have acted : regenerator.Works (start regenerator now job machine).2.world
        (act regenerator now job (start regenerator now job machine).2).2.world := .acts job now _
    exact .since (.tail (.single started) acted) same (conclude_spends regenerator now batch _ _) (Nat.le_refl _)
  · have suspended := suspend_spends regenerator batch (now.addMillis (start regenerator now job machine).1)
      (Nat.le_refl (Stage.acting job []).waits) (start regenerator now job machine).2
    exact .since (.single started) same suspended (Nat.le_refl _)

private theorem execute_spends (machine : Machine σ) :
    Spends regenerator batch (2 * (batch.plan.sections.length + 1)) machine (execute regenerator now batch machine) := by
  simp only [execute]
  have dropped : regenerator.Works machine.world
      (invalidate now machine.scheduler.settings batch.plan machine.workspace, machine.own) := .drops _ _ _ _ _
  generalize invalidate now machine.scheduler.settings batch.plan machine.workspace = workspace at dropped ⊢
  have since {bound : Nat} {after : Machine σ} (spends : Spends regenerator batch bound { machine with workspace } after)
      (less : bound ≤ 2 * (batch.plan.sections.length + 1)) :
      Spends regenerator batch (2 * (batch.plan.sections.length + 1)) machine after := by
    have works : ReflTransGen regenerator.Works machine.world { machine with workspace : Machine σ }.world := .single dropped
    exact .since works rfl spends less
  cases batch.plan.strategy with
  | full => exact since (runJob_spends regenerator now batch .everything _) (by omega)
  | templates => exact since (runJob_spends regenerator now batch _ _) (by omega)
  | sections => exact since (runSections_spends regenerator now batch _ _) (by omega)
  | incremental => exact since (conclude_spends regenerator now batch none _) (Nat.le_refl _)

/-- A batch that waits goes on, and there is to be waited for it less often afterwards. -/
theorem resume_spends (waiting : Waiting) (machine : Machine σ) :
    Spends regenerator waiting.batch (waiting.stage.waits - 1) machine (resume regenerator now waiting machine) := by
  obtain ⟨batch, stage, due⟩ := waiting
  cases stage with
  | pausing rest => exact runSections_spends regenerator now batch rest machine
  | acting job rest =>
    have acts : regenerator.Works machine.world (act regenerator now job machine).2.world := .acts job now _
    cases job with
    | single part =>
      exact spends_of_section regenerator now batch part rest machine (runSections_spends regenerator now batch rest)
    | everything =>
      exact .since (.single acts) rfl (conclude_spends regenerator now batch _ _) (Nat.le_refl _)
    | templates paths =>
      exact .since (.single acts) rfl (conclude_spends regenerator now batch _ _) (Nat.le_refl _)

omit batch in
/-- The gathered changes make no more than one batch. -/
theorem apply_spends (next : After) {machine : Machine σ} (free : machine.scheduler.waiting = none) :
    ∃ batch : Running, batch.plan.sections.length ≤ machine.workspace.sections.count ∧
      Spends regenerator batch (2 * (batch.plan.sections.length + 1)) machine (apply regenerator now next machine) := by
  let plan := Plan.ofChanges machine.scheduler.settings machine.workspace.artifacts.length machine.workspace.sections
    machine.scheduler.pending
  refine ⟨(machine.scheduler.begin now plan next).1, ?_, ?_⟩
  · rw [← Sections.length_all]
    exact List.length_filter_le _ _
  · simp only [apply]
    split
    · refine ⟨.refl, length_mailbox_proceed _ _, fun waiting held => ?_⟩
      rw [modify, Scheduler.waiting_proceed, free] at held
      cases held
    · have executed := execute_spends regenerator now (machine.scheduler.begin now plan next).1
        { machine with scheduler := (machine.scheduler.begin now plan next).2 }
      exact ⟨executed.world, executed.mailbox, executed.waiting⟩

omit batch now in
/-- A command is taken out of the mailbox, and makes no more than one batch. -/
theorem take_spends (now : Timestamp) {machine : Machine σ} {command : Command} {rest : List Command}
    (ready : machine.scheduler.accepting = true ∧ machine.scheduler.waiting = none)
    (first : machine.scheduler.mailbox = command :: rest) :
    ∃ batch : Running, batch.plan.sections.length ≤ machine.workspace.sections.count ∧
      Spends regenerator batch (2 * (batch.plan.sections.length + 1)) (machine.modify ({ · with mailbox := rest }))
        (take regenerator now machine) := by
  have free : (machine.modify ({ · with mailbox := rest })).scheduler.waiting = none := ready.2
  have nothing : ({ strategy := .incremental, changed := [], removed := [], templates := [], sections := [] } : Plan).sections.length ≤
      machine.workspace.sections.count := Nat.zero_le _
  simp only [take, first, ready, Option.isNone_none, Bool.and_self, if_true]
  cases command with
  | submit changes =>
    refine ⟨{ id := .nil, plan := _, startedAt := now, after := .gather }, nothing, ?_⟩
    cases changes with
    | nil => exact ⟨.refl, Nat.le_refl _, fun waiting held => absurd (held.symm.trans free) (Option.some_ne_none waiting)⟩
    | cons change more => exact ⟨.refl, Nat.le_refl _, fun waiting held => absurd (held.symm.trans free) (Option.some_ne_none waiting)⟩
  | flush ticket => exact apply_spends regenerator now (.acknowledge ticket) free
  | shutdown ticket => exact apply_spends regenerator now (.stop (some ticket)) free
  | hangUp => exact apply_spends regenerator now (.stop none) free

end

end Machine

/-! ### Turns -/

/-- A batch is not waited for more often than its sections allow. -/
def Scheduler.Fits (scheduler : Scheduler) : Prop :=
  ∀ waiting, scheduler.waiting = some waiting → waiting.stage.waits ≤ 2 * (waiting.batch.plan.sections.length + 1)

/-- A regenerator that registers no sections and removes none. -/
def Regenerator.Steady (regenerator : Regenerator σ) : Prop :=
  ∀ (job : Job) (now : Timestamp) (world : Workspace × σ),
    (regenerator.act job now world).2.1.sections.count = world.1.sections.count

theorem Regenerator.Steady.count {regenerator : Regenerator σ} (steady : regenerator.Steady)
    {before after : Workspace × σ} (works : ReflTransGen regenerator.Works before after) :
    after.1.sections.count = before.1.sections.count := by
  induction works with
  | refl => rfl
  | tail _ work ih =>
    cases work with
    | starts => exact ih
    | acts job now => exact (steady job now _).trans ih
    | stamps id now workspace own => exact (Sections.count_markUpdated _ id now).trans ih
    | drops now settings plan workspace own =>
      rw [← ih]
      unfold Machine.invalidate
      cases plan.strategy <;> rfl

namespace Machine

/-- A bound on the number of waits before the mailbox is empty, by what is left of the batch that is being applied. -/
def load (machine : Machine σ) : Nat :=
  (machine.scheduler.waiting.map (·.stage.waits)).getD 0 +
    2 * (machine.workspace.sections.count + 1) * machine.scheduler.mailbox.length

theorem load_le_waitsLeft {machine : Machine σ} (fits : machine.scheduler.Fits) : machine.load ≤ machine.waitsLeft := by
  have current : (machine.scheduler.waiting.map (·.stage.waits)).getD 0 ≤
      2 * ((machine.scheduler.waiting.map (·.batch.plan.sections.length)).getD 0 + 1) := by
    cases held : machine.scheduler.waiting with
    | none => exact Nat.zero_le _
    | some waiting => exact fits waiting held
  have mailbox : 2 * (machine.workspace.sections.count + 1) * machine.scheduler.mailbox.length ≤
      2 * (machine.workspace.sections.count + 1) * (machine.scheduler.mailbox.length + 1) :=
    Nat.mul_le_mul_left _ (Nat.le_succ _)
  simp only [load, waitsLeft]
  omega

section
variable {regenerator : Regenerator σ} {batch : Running} {bound : Nat} {before after : Machine σ}

theorem Spends.fits (spends : Spends regenerator batch bound before after)
    (less : bound ≤ 2 * (batch.plan.sections.length + 1)) : after.scheduler.Fits := by
  intro waiting held
  obtain ⟨rfl, within⟩ := spends.waiting waiting held
  exact Nat.le_trans within less

theorem Spends.load (spends : Spends regenerator batch bound before after) (steady : regenerator.Steady) :
    after.load ≤ bound + 2 * (before.workspace.sections.count + 1) * before.scheduler.mailbox.length := by
  have count : after.workspace.sections.count = before.workspace.sections.count := steady.count spends.world
  have mailbox : 2 * (before.workspace.sections.count + 1) * after.scheduler.mailbox.length ≤
      2 * (before.workspace.sections.count + 1) * before.scheduler.mailbox.length := Nat.mul_le_mul_left _ spends.mailbox
  have current : (after.scheduler.waiting.map (·.stage.waits)).getD 0 ≤ bound := by
    cases held : after.scheduler.waiting with
    | none => exact Nat.zero_le _
    | some waiting => exact (spends.waiting waiting held).2
  rw [Machine.load, count]
  omega

end

section
variable (regenerator : Regenerator σ) (now : Timestamp) (machine : Machine σ)

theorem take_of_busy (busy : ¬(machine.scheduler.accepting = true ∧ machine.scheduler.waiting = none)) :
    take regenerator now machine = machine := by
  unfold take
  split
  · rfl
  · rw [if_neg]
    simpa using busy

theorem take_of_empty (empty : machine.scheduler.mailbox = []) : take regenerator now machine = machine := by
  rw [take, empty]

/-- What a scheduler does of its own accord is work on batches. -/
theorem turn_works (kind : Turn) :
    ReflTransGen regenerator.Works machine.world (kind.apply regenerator now machine).world ∧
      (machine.scheduler.Fits → (kind.apply regenerator now machine).scheduler.Fits) := by
  cases kind with
  | take =>
    rw [Turn.apply]
    by_cases ready : machine.scheduler.accepting = true ∧ machine.scheduler.waiting = none
    · cases first : machine.scheduler.mailbox with
      | nil =>
        rw [take_of_empty regenerator now machine first]
        exact ⟨.refl, id⟩
      | cons command rest =>
        obtain ⟨batch, -, spends⟩ := take_spends regenerator now ready first
        exact ⟨spends.world, fun _ => spends.fits (Nat.le_refl _)⟩
    · rw [take_of_busy regenerator now machine ready]
      exact ⟨.refl, id⟩
  | wake =>
    simp only [Turn.apply, wake]
    split
    next waiting held =>
      split
      · have spends := resume_spends regenerator now waiting machine
        exact ⟨spends.world, fun fits => spends.fits (Nat.le_trans (Nat.sub_le _ _) (fits waiting held))⟩
      · exact ⟨.refl, id⟩
    next => exact ⟨.refl, id⟩
  | closeWindow =>
    rw [Turn.apply, closeWindow_eq]
    split
    next expired =>
      obtain ⟨batch, -, spends⟩ := apply_spends regenerator now .gather (free_of_expired now expired)
      exact ⟨spends.world, fun _ => spends.fits (Nat.le_refl _)⟩
    next => exact ⟨.refl, id⟩

theorem take_load (steady : regenerator.Steady) : (take regenerator now machine).load ≤ machine.load := by
  by_cases ready : machine.scheduler.accepting = true ∧ machine.scheduler.waiting = none
  · cases first : machine.scheduler.mailbox with
    | nil => exact Nat.le_of_eq (congrArg load (take_of_empty regenerator now machine first))
    | cons command rest =>
      obtain ⟨batch, few, spends⟩ := take_spends regenerator now ready first
      have load : (take regenerator now machine).load ≤ 2 * (batch.plan.sections.length + 1) +
          2 * (machine.workspace.sections.count + 1) * rest.length := spends.load steady
      have before : machine.load = 2 * (machine.workspace.sections.count + 1) * rest.length +
          2 * (machine.workspace.sections.count + 1) := by
        rw [Machine.load, ready.2, first, List.length_cons, Nat.mul_succ]
        exact Nat.zero_add _
      omega
  · exact Nat.le_of_eq (congrArg load (take_of_busy regenerator now machine ready))

/-- Every wait that is over leaves fewer. -/
theorem wake_load (steady : regenerator.Steady) {waiting : Waiting} (held : machine.scheduler.waiting = some waiting) :
    (wake regenerator now machine).load + (if waiting.due ≤ now then 1 else 0) ≤ machine.load := by
  simp only [wake, held]
  split
  next due =>
    have load := (resume_spends regenerator now waiting machine).load steady
    have some_left : 0 < waiting.stage.waits := by cases waiting.stage <;> exact Nat.succ_pos _
    have before : machine.load = waiting.stage.waits +
        2 * (machine.workspace.sections.count + 1) * machine.scheduler.mailbox.length := by
      rw [Machine.load, held]
      rfl
    omega
  next => exact Nat.le_refl _

end

end Machine

end Batch
end FreshDocs
