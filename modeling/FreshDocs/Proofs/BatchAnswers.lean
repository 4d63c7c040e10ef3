import FreshDocs.Proofs.BatchAccounting

/-! What an answer to a command is worth. A command that was answered has gone through the mailbox
behind everything that was handed in before it, so all of that has been applied by then. -/

namespace FreshDocs.Batch

variable {σ : Type}

def After.ticket? : After → Option Ticket
  | .gather => none
  | .acknowledge ticket => some ticket
  | .stop ticket => ticket

namespace Command

def ticket? (command : Command) : Option Ticket :=
  command.next?.bind After.ticket?

def Reached (mailbox : List Command) (ticket : Ticket) (front : List Command) : Prop :=
  ∃ command rest, mailbox = front ++ command :: rest ∧ front.any ends = false ∧ command.ticket? = some ticket

theorem Reached.cons {mailbox front : List Command} {ticket : Ticket} (reached : Reached mailbox ticket front)
    {first : Command} (goes : first.ends = false) : Reached (first :: mailbox) ticket (first :: front) := by
  obtain ⟨command, rest, shape, free, named⟩ := reached
  exact ⟨command, rest, by rw [shape, List.cons_append], by simp [goes, free], named⟩

theorem reached_append {mailbox front : List Command} {command : Command} {ticket : Ticket}
    (reached : Reached (mailbox ++ [command]) ticket front) :
    Reached mailbox ticket front ∨
      front = mailbox ∧ mailbox.any ends = false ∧ command.ticket? = some ticket := by
  obtain ⟨found, rest, shape, free, named⟩ := reached
  rcases List.eq_nil_or_concat rest with rfl | ⟨rest, last, rfl⟩
  · obtain ⟨rfl, same⟩ := List.append_inj' shape rfl
    cases same
    exact .inr ⟨rfl, free, named⟩
  · rw [List.concat_eq_append, ← List.cons_append, ← List.append_assoc] at shape
    obtain ⟨rfl, -⟩ := List.append_inj' shape rfl
    exact .inl ⟨found, rest, rfl, free, named⟩

end Command

/-- What was promised under a ticket is kept wherever the ticket is by now. -/
structure Kept (ticket : Ticket) (promised : List Change) (trace : Trace σ) : Prop where
  queued : trace.machine.scheduler.stopping = false →
    ∀ front, Command.Reached trace.machine.scheduler.mailbox ticket front →
      promised <+: trace.executed ++ (trace.machine.scheduler.pending ++ front.flatMap (·.changes))
  underway : ∀ waiting, trace.machine.scheduler.waiting = some waiting →
    waiting.batch.after.ticket? = some ticket → promised <+: trace.executed
  answered : ticket ∈ trace.machine.scheduler.acknowledged →
    promised <+: trace.finished.flatMap (·.changes)

namespace Scheduler

private theorem stopping_proceed {scheduler : Scheduler} (free : scheduler.waiting = none) (next : After) :
    (scheduler.proceed next).stopping = (!scheduler.accepting || next.ends) := by
  cases next <;> simp [proceed, stopping, After.ends, free]

private theorem mailbox_proceed (scheduler : Scheduler) {next : After} (goes : next.ends = false) :
    (scheduler.proceed next).mailbox = scheduler.mailbox := by
  cases next with
  | gather | acknowledge => rfl
  | stop => cases goes

theorem mem_acknowledged_proceed {scheduler : Scheduler} {next : After} {ticket : Ticket} :
    ticket ∈ (scheduler.proceed next).acknowledged ↔
      next.ticket? = some ticket ∨ ticket ∈ scheduler.acknowledged := by
  cases next with
  | gather => simp [proceed, After.ticket?]
  | acknowledge other => simp [proceed, After.ticket?, eq_comm]
  | stop other => simp [proceed, After.ticket?]

theorem nextTicket_proceed (scheduler : Scheduler) (next : After) :
    (scheduler.proceed next).nextTicket = scheduler.nextTicket := by
  cases next <;> rfl

end Scheduler

section
variable {trace : Trace σ} {machine : Machine σ} {outcomes : List Outcome} {ticket : Ticket}
  {promised : List Change}

/-- Going on keeps what was promised, when it also holds for the ticket that is answered with it. -/
theorem Kept.proceed {before : Scheduler} {next : After} (free : before.waiting = none)
    (closed : trace.machine.scheduler = before.proceed next) (idle : trace.current = none)
    (answered : ticket ∈ before.acknowledged → promised <+: trace.finished.flatMap (·.changes))
    (here : next.ticket? = some ticket → promised <+: trace.finished.flatMap (·.changes))
    (queued : (!before.accepting || next.ends) = false → ∀ front, Command.Reached before.mailbox ticket front →
      promised <+: trace.finished.flatMap (·.changes) ++ (before.pending ++ front.flatMap (·.changes))) :
    Kept ticket promised trace := by
  refine ⟨?_, ?_, ?_⟩
  · simp only [closed, Scheduler.stopping_proceed free, Scheduler.pending_proceed, Trace.executed, idle,
      Option.toList_none, List.append_nil]
    intro goes front reached
    rw [Scheduler.mailbox_proceed before (Bool.or_eq_false_iff.mp goes).2] at reached
    exact queued goes front reached
  · simp [closed, Scheduler.waiting_proceed, free]
  · simp only [closed, Scheduler.mem_acknowledged_proceed]
    rintro (named | older)
    · exact here named
    · exact answered older

theorem Ran.kept {batch : Running} {before : Scheduler} {round : Round}
    (ran : Ran batch before outcomes machine.scheduler)
    (answered : ticket ∈ before.acknowledged → promised <+: trace.finished.flatMap (·.changes))
    (here : batch.after.ticket? = some ticket → promised <+: trace.finished.flatMap (·.changes) ++ round.changes)
    (queued : (!before.accepting || batch.after.ends) = false →
      ∀ front, Command.Reached before.mailbox ticket front →
        promised <+: trace.finished.flatMap (·.changes) ++ round.changes ++
          (before.pending ++ front.flatMap (·.changes))) :
    Kept ticket promised (trace.follow round machine) := by
  generalize shape : machine.scheduler = after at ran
  cases ran with
  | waits stage due fine =>
    refine ⟨?_, ?_, ?_⟩
    all_goals simp only [Trace.executed_follow, Trace.machine_follow, shape]
    · exact queued
    · rintro waiting held named
      cases held
      exact here named
    · simpa [Trace.follow, shape, Scheduler.suspend] using answered
  | ends now failure honest =>
    have closed : (before.conclude now batch failure).waiting = none := Scheduler.waiting_proceed _ _
    have finished : (trace.finished ++ [round]).flatMap (·.changes) =
        trace.finished.flatMap (·.changes) ++ round.changes := by simp
    have noted : trace.follow round machine = ⟨machine, trace.finished ++ [round], none⟩ := by
      simp [Trace.follow, shape, closed]
    rw [noted]
    refine Kept.proceed rfl shape rfl ?_ ?_ ?_
    all_goals rw [finished]
    · exact fun older => (answered older).trans (List.prefix_append _ _)
    · exact here
    · exact queued

theorem Applied.kept {next : After} {before : Scheduler}
    (applied : Applied next before outcomes machine.scheduler) (aligned : trace.Aligned)
    (free : trace.machine.scheduler.waiting = none) (same : before.waiting = trace.machine.scheduler.waiting)
    (gathered : before.pending = trace.machine.scheduler.pending)
    (answered : ticket ∈ before.acknowledged → promised <+: trace.finished.flatMap (·.changes))
    (here : next.ticket? = some ticket → promised <+: trace.executed ++ before.pending)
    (queued : (!before.accepting || next.ends) = false → ∀ front, Command.Reached before.mailbox ticket front →
      promised <+: trace.executed ++ (before.pending ++ front.flatMap (·.changes))) :
    Kept ticket promised (trace.note machine outcomes) := by
  have idle := aligned.current_none free
  have executed : trace.executed = trace.finished.flatMap (·.changes) := by simp [Trace.executed, idle]
  rw [executed] at here queued
  rcases applied.noted aligned same gathered with ⟨empty, closed, noted⟩ | ⟨now, plan, some, covers, ran, noted⟩
  · rw [noted]
    rw [empty, List.append_nil] at here
    exact Kept.proceed (same.trans free) closed idle answered here queued
  · rw [noted]
    refine Ran.kept ran answered here ?_
    simpa only [Scheduler.begin, List.append_assoc, List.nil_append] using queued

/-- Only the mailbox counts as long as no batch begins or ends. -/
theorem Kept.quiet (kept : Kept ticket promised trace)
    (waiting : machine.scheduler.waiting = trace.machine.scheduler.waiting)
    (acknowledged : machine.scheduler.acknowledged = trace.machine.scheduler.acknowledged)
    (queued : machine.scheduler.stopping = false →
      ∀ front, Command.Reached machine.scheduler.mailbox ticket front →
        promised <+: trace.executed ++ (machine.scheduler.pending ++ front.flatMap (·.changes))) :
    Kept ticket promised { trace with machine } := by
  refine ⟨queued, ?_, ?_⟩
  · rw [waiting]
    exact kept.underway
  · rw [acknowledged]
    exact kept.answered

/-- No turn breaks a promise. -/
theorem Turned.kept (turned : Turned trace.machine.scheduler outcomes machine.scheduler)
    (aligned : trace.Aligned) (kept : Kept ticket promised trace) :
    Kept ticket promised (trace.note machine outcomes) := by
  generalize shape : machine.scheduler = after at turned
  cases turned with
  | rests =>
    rw [Trace.note_quiet aligned (by rw [shape]; exact id) (by rw [shape])]
    apply kept.quiet
    all_goals rw [shape]
    exact kept.queued
  | skips rest ready first =>
    rw [Trace.note_quiet aligned (by rw [shape]; exact id) (by rw [shape])]
    apply kept.quiet
    all_goals rw [shape]
    intro goes front reached
    exact kept.queued goes (.submit [] :: front) (first ▸ reached.cons rfl)
  | gathers now changes rest ready first =>
    rw [Trace.note_quiet aligned (by rw [shape]; exact fun none => (List.append_eq_nil_iff.mp none).1)
      (by rw [shape]; rfl)]
    apply kept.quiet
    all_goals rw [shape]
    · rfl
    · rfl
    · intro goes front reached
      have promise := kept.queued goes (.submit changes :: front) (first ▸ reached.cons rfl)
      simpa only [Scheduler.gather, List.append_assoc, List.flatMap_cons, Command.changes] using promise
  | obeys command rest next outcomes after ready first follows applied =>
    subst shape
    have goes : trace.machine.scheduler.stopping = false := by simp [Scheduler.stopping, ready]
    -- The ticket is either that of the command itself, or of one that stands behind it.
    refine applied.kept aligned ready.2 rfl rfl kept.answered ?_ ?_
    · intro named
      have reached : Command.Reached trace.machine.scheduler.mailbox ticket [] :=
        ⟨command, rest, first, rfl, by simp [Command.ticket?, follows, named]⟩
      simpa using kept.queued goes [] reached
    · intro more front reached
      have passes : command.ends = false := by
        simpa [Command.ends, follows] using (Bool.or_eq_false_iff.mp more).2
      simpa [Command.changes_of_next follows] using
        kept.queued goes (command :: front) (first ▸ reached.cons passes)
  | closes outcomes after free applied =>
    subst shape
    refine applied.kept aligned free rfl rfl kept.answered (fun named => by cases named) ?_
    simpa [Scheduler.stopping, free, After.ends] using kept.queued
  | resumes waiting outcomes after held ran =>
    subst shape
    obtain ⟨round, current⟩ := aligned.current_some held
    rw [Trace.note_resumed outcomes current ran.pending]
    have executed : trace.executed = trace.finished.flatMap (·.changes) ++ round.changes := by
      simp [Trace.executed, current]
    refine Ran.kept ran kept.answered ?_ ?_
    · rw [← executed]
      exact kept.underway waiting held
    · rw [← executed]
      simpa [Scheduler.stopping, held] using kept.queued

end

end FreshDocs.Batch
