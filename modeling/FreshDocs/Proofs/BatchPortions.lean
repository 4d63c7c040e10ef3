import FreshDocs.Proofs.BatchRuns

/-! Changes are handed in by the list. A list with changes goes into one batch as a whole, together with the
lists that came right before and after it, and no batch has anything else. -/

namespace FreshDocs.Batch

variable {σ : Type}

/-- The list itself if it has any changes, and nothing otherwise. -/
def portion (changes : List Change) : List (List Change) :=
  if changes.isEmpty then [] else [changes]

private theorem flatten_portion (changes : List Change) : (portion changes).flatten = changes := by
  cases changes <;> simp [portion]

theorem nil_not_mem_portion (changes : List Change) : [] ∉ portion changes := by
  cases changes <;> simp [portion]

namespace Command

def portions (mailbox : List Command) : List (List Change) :=
  (mailbox.takeWhile (!·.ends)).flatMap (portion ·.changes)

private theorem portions_cons (command : Command) (rest : List Command) :
    portions (command :: rest) = if command.ends then [] else portion command.changes ++ portions rest :=
  given_cons _ command rest

private theorem portions_append (mailbox : List Command) (command : Command) :
    portions (mailbox ++ [command]) =
      portions mailbox ++ if mailbox.any ends then [] else portion command.changes := by
  apply given_append
  intro command last
  rw [changes_of_ends last]
  rfl

end Command

def Scheduler.portions (scheduler : Scheduler) : List (List Change) :=
  if scheduler.stopping then [] else Command.portions scheduler.mailbox

/-! ### The mailbox after a batch -/

section
variable {batch : Running} {next : After} {before after : Scheduler} {outcomes : List Outcome}

theorem Ran.portions (ran : Ran batch before outcomes after) :
    after.portions = if !before.accepting || batch.after.ends then [] else Command.portions before.mailbox := by
  cases ran with
  | waits => rfl
  | ends => cases shape : batch.after <;> simp [Scheduler.conclude, Scheduler.proceed, Scheduler.portions,
      Scheduler.stopping, After.ends, shape]

theorem Applied.portions (applied : Applied next before outcomes after) (free : before.waiting = none) :
    after.portions = if !before.accepting || next.ends then [] else Command.portions before.mailbox := by
  cases applied with
  | nothing => cases next <;> simp [Scheduler.proceed, Scheduler.portions, Scheduler.stopping, After.ends, free]
  | batch now plan outcomes after gathered covers ran => exact ran.portions

end

/-! ### Groups of lists -/

namespace Trace

def batches (trace : Trace σ) : List (List Change) :=
  (trace.finished ++ trace.current.toList).map (·.changes)

private theorem batches_follow (trace : Trace σ) (round : Round) (machine : Machine σ) :
    (trace.follow round machine).batches = trace.finished.map (·.changes) ++ [round.changes] := by
  simp only [follow, batches]
  split <;> simp

/-- The lists are, in this order, those that went into batches, one group into each, those that are gathered,
and those in the mailbox. -/
def Portioned (lists : List (List Change)) (trace : Trace σ) : Prop :=
  ∃ (groups : List (List (List Change))) (gathered : List (List Change)),
    trace.batches = groups.map List.flatten ∧ trace.machine.scheduler.pending = gathered.flatten ∧ [] ∉ gathered ∧
    groups.flatten ++ (gathered ++ trace.machine.scheduler.portions) = lists

end Trace

section
variable {trace : Trace σ} {machine : Machine σ} {outcomes : List Outcome} {lists : List (List Change)}

theorem Applied.portioned {next : After} {before : Scheduler}
    (applied : Applied next before outcomes machine.scheduler) (aligned : trace.Aligned)
    (free : trace.machine.scheduler.waiting = none) (same : before.waiting = trace.machine.scheduler.waiting)
    (gathered : before.pending = trace.machine.scheduler.pending)
    (kept : trace.machine.scheduler.portions =
      if !before.accepting || next.ends then [] else Command.portions before.mailbox)
    (portioned : trace.Portioned lists) : (trace.note machine outcomes).Portioned lists := by
  obtain ⟨groups, lately, batches, pending, some, order⟩ := portioned
  rw [kept, ← applied.portions (same.trans free)] at order
  rcases applied.noted aligned same gathered with ⟨empty, closed, noted⟩ | ⟨now, plan, -, -, ran, noted⟩
  · rw [noted]
    refine ⟨groups, lately, batches, ?_, some, order⟩
    rw [closed, Scheduler.pending_proceed, gathered, pending]
  · rw [noted]
    -- the gathered lists are the group of the new batch
    refine ⟨groups ++ [lately], [], ?_, ?_, List.not_mem_nil, ?_⟩
    · have idle := aligned.current_none free
      simp only [Trace.batches, idle, Option.toList_none, List.append_nil] at batches
      rw [Trace.batches_follow, batches, gathered, pending]
      simp
    · rw [Trace.machine_follow, ran.pending]
      rfl
    · rw [Trace.machine_follow, ← order]
      simp

/-- No turn splits a list, puts one into two batches, or lets one overtake another. -/
theorem Turned.portioned (turned : Turned trace.machine.scheduler outcomes machine.scheduler)
    (aligned : trace.Aligned) (portioned : trace.Portioned lists) : (trace.note machine outcomes).Portioned lists := by
  generalize shape : machine.scheduler = after at turned
  -- Turns that only take a command begin and end no batch, so nothing is noted for them.
  have quiet (kept : after.pending = [] → trace.machine.scheduler.pending = [])
      (same : after.waiting = trace.machine.scheduler.waiting) : trace.note machine [] = { trace with machine } :=
    Trace.note_quiet aligned (shape ▸ kept) (shape ▸ same)
  cases turned with
  | rests =>
    rw [quiet id rfl]
    simpa only [Trace.Portioned, Trace.batches, shape] using portioned
  | skips rest ready first =>
    rw [quiet id rfl]
    obtain ⟨groups, gathered, batches, pending, some, order⟩ := portioned
    refine ⟨groups, gathered, batches, shape ▸ pending, some, ?_⟩
    rw [← order, shape]
    simp [Scheduler.portions, Scheduler.stopping, first, Command.portions_cons, Command.ends, Command.next?,
      Command.changes, portion]
  | gathers now changes rest ready first =>
    rw [quiet (fun none => (List.append_eq_nil_iff.mp none).1) rfl]
    obtain ⟨groups, gathered, batches, pending, some, order⟩ := portioned
    refine ⟨groups, gathered ++ portion changes, batches, ?_, ?_, ?_⟩
    · rw [List.flatten_append, flatten_portion, ← pending, shape]
      rfl
    · rw [List.mem_append, not_or]
      exact ⟨some, nil_not_mem_portion changes⟩
    · rw [← order, shape]
      simp [Scheduler.portions, Scheduler.stopping, Scheduler.gather, ready, first, Command.portions_cons,
        Command.ends, Command.next?, Command.changes]
  | obeys command rest next outcomes after ready first follows applied =>
    subst shape
    refine applied.portioned aligned ready.2 rfl rfl ?_ portioned
    simp [Scheduler.portions, Scheduler.stopping, ready, first, Command.portions_cons, Command.ends, follows,
      Command.changes_of_next follows, portion]
  | closes outcomes after free applied =>
    subst shape
    refine applied.portioned aligned free rfl rfl ?_ portioned
    simp [Scheduler.portions, Scheduler.stopping, free, After.ends]
  | resumes waiting outcomes after held ran =>
    subst shape
    obtain ⟨round, current⟩ := aligned.current_some held
    obtain ⟨groups, gathered, batches, pending, some, order⟩ := portioned
    rw [Trace.note_resumed outcomes current ran.pending]
    refine ⟨groups, gathered, ?_, ?_, some, ?_⟩
    · rw [Trace.batches_follow, ← batches, Trace.batches, current]
      simp
    · rw [Trace.machine_follow, ran.pending, pending]
    · rw [Trace.machine_follow, ran.portions, ← order]
      simp [Scheduler.portions, Scheduler.stopping, held]

end

/-! ### Runs -/

def portions (actions : List (Timestamp × Action σ)) : List (List Change) :=
  actions.flatMap (portion ·.2.changes)

def earlyPortions (actions : List (Timestamp × Action σ)) : List (List Change) :=
  portions (actions.takeWhile (!·.2.ends))

private theorem earlyPortions_cons (now : Timestamp) (action : Action σ) (rest : List (Timestamp × Action σ)) :
    earlyPortions ((now, action) :: rest) =
      portion action.changes ++ if action.ends then [] else earlyPortions rest := by
  cases action <;> simp [earlyPortions, portions, Action.ends, Action.changes, portion]

theorem earlyPortions_of_end {before after : List (Timestamp × Action σ)} {now : Timestamp} {action : Action σ}
    (free : before.any (·.2.ends) = false) (last : action.ends = true) :
    earlyPortions (before ++ (now, action) :: after) = portions before := by
  have passed : ∀ entry ∈ before, (!entry.2.ends) = true := by simpa using free
  rw [earlyPortions, List.takeWhile_append_of_pos passed]
  simp [last]

namespace Trace

section
variable (regenerator : Regenerator σ) (now : Timestamp) {trace : Trace σ}

section
variable {property : Trace σ → Prop}
  (turn : ∀ now trace kind, property trace → property (trace.turn regenerator now kind))
include turn

/-- What every turn keeps is kept while the scheduler works through its mailbox. -/
theorem drain_keeps (count : Nat) (valid : property trace) : property (drain regenerator now count trace) := by
  induction count generalizing trace with
  | zero => exact valid
  | succ count ih => exact ih (turn now trace .take valid)

theorem settle_keeps (valid : property trace) : property (trace.settle regenerator now) :=
  turn now _ .closeWindow (drain_keeps regenerator now turn _ (turn now trace .wake valid))

theorem advance_keeps (valid : property trace) (target : Timestamp) :
    property ((clockwork regenerator).run now target trace) := by
  apply Clockwork.run_keeps ?_ now valid
  intro now state _ valid
  exact settle_keeps regenerator now turn valid

end

private theorem push_portioned {lists : List (List Change)} (portioned : trace.Portioned lists) (command : Command)
    (nextTicket : Ticket) : (trace.push command nextTicket).Portioned
      (lists ++ if trace.machine.scheduler.ending then [] else portion command.changes) := by
  obtain ⟨groups, gathered, batches, pending, some, order⟩ := portioned
  refine ⟨groups, gathered, batches, pending, some, ?_⟩
  have more := Command.portions_append trace.machine.scheduler.mailbox command
  rw [← order]
  cases stops : trace.machine.scheduler.stopping <;>
    simp_all [push, Scheduler.portions, Scheduler.ending, Scheduler.stopping]

theorem request_portioned {lists : List (List Change)} (portioned : trace.Portioned lists) (command : Command)
    (nextTicket : Ticket) :
    (if trace.machine.scheduler.accepting then trace.push command nextTicket else trace).Portioned
      (lists ++ if trace.machine.scheduler.ending then [] else portion command.changes) := by
  cases accepting : trace.machine.scheduler.accepting with
  | true => exact push_portioned portioned command nextTicket
  | false =>
    have ending : trace.machine.scheduler.ending = true := by simp [Scheduler.ending, Scheduler.stopping, accepting]
    simpa [ending] using portioned

private theorem step_portioned {lists : List (List Change)} (aligned : trace.Aligned) (portioned : trace.Portioned lists)
    (action : Action σ) : (trace.step regenerator now action).Portioned
      (lists ++ if trace.machine.scheduler.ending then [] else portion action.changes) := by
  have turn (now : Timestamp) (trace : Trace σ) (kind : Machine.Turn)
      (valid : trace.Aligned ∧ trace.Portioned lists) :
      (trace.turn regenerator now kind).Aligned ∧ (trace.turn regenerator now kind).Portioned lists :=
    ⟨(turn_follows regenerator now valid.1 kind).aligned,
      (Machine.turn_turned regenerator now trace.machine kind).portioned valid.1 valid.2⟩
  have given (nothing : action.changes = []) (stepped : (trace.step regenerator now action).Portioned lists) :
      (trace.step regenerator now action).Portioned
        (lists ++ if trace.machine.scheduler.ending then [] else portion action.changes) := by
    simpa [nothing, portion] using stepped
  cases action with
  | submit changes =>
    rw [step_submit]
    exact request_portioned portioned (.submit changes) _
  | flush =>
    rw [step_flush]
    exact request_portioned portioned (.flush _) _
  | shutdown =>
    rw [step_shutdown]
    exact request_portioned portioned (.shutdown _) _
  | hangUp =>
    rw [step_hangUp]
    exact request_portioned portioned .hangUp _
  | alter workspace own =>
    have same : (trace.step regenerator now (.alter workspace own)).Portioned lists := portioned
    exact given rfl same
  | turn kind => exact given rfl (turn now trace kind ⟨aligned, portioned⟩).2
  | settle => exact given rfl (settle_keeps regenerator now turn ⟨aligned, portioned⟩).2
  | advance target => exact given rfl (advance_keeps regenerator now turn ⟨aligned, portioned⟩ target).2

theorem run_portioned {lists : List (List Change)} (aligned : trace.Aligned) (portioned : trace.Portioned lists)
    (actions : List (Timestamp × Action σ)) : (trace.run regenerator actions).Portioned
      (lists ++ if trace.machine.scheduler.ending then [] else earlyPortions actions) := by
  induction actions generalizing trace lists with
  | nil => simpa [earlyPortions, portions, run] using portioned
  | cons entry rest ih =>
    obtain ⟨now, action⟩ := entry
    have goes := step_goes regenerator now aligned action
    have later := ih goes.aligned (step_portioned regenerator now aligned portioned action)
    rw [goes.ending, List.append_assoc] at later
    rw [run, earlyPortions_cons]
    cases ending : trace.machine.scheduler.ending with
    | true => simpa [ending] using later
    | false => simpa [ending] using later

end

theorem start_portioned (settings : Settings) (workspace : Workspace) (own : σ) :
    (start settings workspace own).Portioned [] :=
  ⟨[], [], rfl, rfl, List.not_mem_nil, rfl⟩

end Trace
end FreshDocs.Batch
