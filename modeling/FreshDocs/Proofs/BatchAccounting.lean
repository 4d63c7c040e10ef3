import FreshDocs.Proofs.BatchTrace

/-! Where changes are on their way through a scheduler. They wait in the mailbox, then among the
gathered changes, and then they are in a batch; no turn loses one, takes one twice, or lets one
overtake another. Watchers and the history are told of each batch, and of nothing else. -/

namespace FreshDocs.Batch

variable {σ : Type}

def After.ends : After → Bool
  | .stop _ => true
  | _ => false

namespace Command

def ends (command : Command) : Bool :=
  command.next?.any After.ends

def changes : Command → List Change
  | .submit changes => changes
  | _ => []

def ahead (mailbox : List Command) : List Change :=
  (mailbox.takeWhile (!·.ends)).flatMap changes

theorem changes_of_next {command : Command} {next : After} (follows : command.next? = some next) :
    command.changes = [] := by
  cases command with
  | submit changes => cases follows
  | flush | shutdown | hangUp => rfl

theorem changes_of_ends {command : Command} (last : command.ends = true) : command.changes = [] := by
  cases command with
  | submit changes => cases last
  | flush | shutdown | hangUp => rfl

section
variable {α : Type} (given : Command → List α)

/-- What is given by the commands up to the first that ends. -/
theorem given_cons (command : Command) (rest : List Command) :
    ((command :: rest).takeWhile (!·.ends)).flatMap given =
      if command.ends then [] else given command ++ (rest.takeWhile (!·.ends)).flatMap given := by
  cases last : command.ends <;> simp [last]

theorem given_append (nothing : ∀ command, command.ends = true → given command = []) (mailbox : List Command)
    (command : Command) :
    ((mailbox ++ [command]).takeWhile (!·.ends)).flatMap given =
      (mailbox.takeWhile (!·.ends)).flatMap given ++ if mailbox.any ends then [] else given command := by
  induction mailbox with
  | nil =>
    cases last : command.ends
    · simp [last]
    · simp [last, nothing command last]
  | cons first rest ih =>
    cases last : first.ends
    · simp [last, ih]
    · simp [last]

end

theorem ahead_cons (command : Command) (rest : List Command) :
    ahead (command :: rest) = if command.ends then [] else command.changes ++ ahead rest :=
  given_cons changes command rest

theorem ahead_append (mailbox : List Command) (command : Command) :
    ahead (mailbox ++ [command]) =
      ahead mailbox ++ if mailbox.any ends then [] else command.changes :=
  given_append changes (fun _ => changes_of_ends) mailbox command

theorem ahead_of_free {mailbox : List Command} (free : mailbox.any ends = false) :
    ahead mailbox = mailbox.flatMap changes := by
  induction mailbox with
  | nil => rfl
  | cons first rest ih =>
    rw [List.any_cons, Bool.or_eq_false_iff] at free
    simp [ahead_cons, free.1, ih free.2]

end Command

namespace Scheduler

/-- Whether no command is taken any more, now or once the batch is over that is being applied. -/
def stopping (scheduler : Scheduler) : Bool :=
  !scheduler.accepting || scheduler.waiting.any (·.batch.after.ends)

def ending (scheduler : Scheduler) : Bool :=
  scheduler.stopping || scheduler.mailbox.any Command.ends

def queued (scheduler : Scheduler) : List Change :=
  if scheduler.stopping then [] else Command.ahead scheduler.mailbox

end Scheduler

/-! ### The mailbox -/

private theorem Scheduler.queued_proceed {scheduler : Scheduler} (free : scheduler.waiting = none) (next : After) :
    (scheduler.proceed next).queued =
      if !scheduler.accepting || next.ends then [] else Command.ahead scheduler.mailbox := by
  cases next <;> simp [proceed, queued, stopping, After.ends, free]

private theorem Scheduler.ending_proceed {scheduler : Scheduler} (free : scheduler.waiting = none) (next : After) :
    (scheduler.proceed next).ending =
      (!scheduler.accepting || next.ends || scheduler.mailbox.any Command.ends) := by
  cases next <;> simp [proceed, ending, stopping, After.ends, free]

theorem Scheduler.pending_proceed (scheduler : Scheduler) (next : After) :
    (scheduler.proceed next).pending = scheduler.pending := by
  cases next <;> rfl

theorem Scheduler.waiting_proceed (scheduler : Scheduler) (next : After) :
    (scheduler.proceed next).waiting = scheduler.waiting := by
  cases next <;> rfl

theorem Ran.pending {batch : Running} {before after : Scheduler} {outcomes : List Outcome}
    (ran : Ran batch before outcomes after) : after.pending = before.pending := by
  cases ran with
  | waits => rfl
  | ends => exact Scheduler.pending_proceed _ _

theorem Ran.queued {batch : Running} {before after : Scheduler} {outcomes : List Outcome}
    (ran : Ran batch before outcomes after) :
    after.queued = if !before.accepting || batch.after.ends then [] else Command.ahead before.mailbox := by
  cases ran with
  | waits => rfl
  | ends => exact Scheduler.queued_proceed rfl _

theorem Ran.ending {batch : Running} {before after : Scheduler} {outcomes : List Outcome}
    (ran : Ran batch before outcomes after) :
    after.ending = (!before.accepting || batch.after.ends || before.mailbox.any Command.ends) := by
  cases ran with
  | waits => rfl
  | ends => exact Scheduler.ending_proceed rfl _

theorem Applied.queued {next : After} {before after : Scheduler} {outcomes : List Outcome}
    (applied : Applied next before outcomes after) (free : before.waiting = none) :
    after.queued = if !before.accepting || next.ends then [] else Command.ahead before.mailbox := by
  cases applied with
  | nothing => exact Scheduler.queued_proceed free next
  | batch now plan outcomes after gathered covers ran => exact ran.queued

theorem Applied.ending {next : After} {before after : Scheduler} {outcomes : List Outcome}
    (applied : Applied next before outcomes after) (free : before.waiting = none) :
    after.ending = (!before.accepting || next.ends || before.mailbox.any Command.ends) := by
  cases applied with
  | nothing => exact Scheduler.ending_proceed free next
  | batch now plan outcomes after gathered covers ran => exact ran.ending

/-- No turn makes up or takes back a request to stop. -/
theorem Turned.ending {before after : Scheduler} {outcomes : List Outcome}
    (turned : Turned before outcomes after) : after.ending = before.ending := by
  cases turned with
  | rests => rfl
  | skips rest ready first => simp [Scheduler.ending, Scheduler.stopping, first, Command.ends, Command.next?]
  | gathers now changes rest ready first =>
    simp [Scheduler.ending, Scheduler.stopping, Scheduler.gather, first, Command.ends, Command.next?]
  | obeys command rest next outcomes after ready first follows applied =>
    rw [applied.ending ready.2]
    simp [Scheduler.ending, Scheduler.stopping, ready, first, Command.ends, follows]
  | closes outcomes after free applied =>
    rw [applied.ending free]
    simp [Scheduler.ending, Scheduler.stopping, free, After.ends]
  | resumes waiting outcomes after held ran =>
    rw [ran.ending]
    simp [Scheduler.ending, Scheduler.stopping, held]

/-! ### Batches -/

namespace Trace

def executed (trace : Trace σ) : List Change :=
  (trace.finished ++ trace.current.toList).flatMap (·.changes)

/-- A batch is noted as long as something is waited for. -/
def Aligned (trace : Trace σ) : Prop :=
  trace.current.isSome = trace.machine.scheduler.waiting.isSome

theorem executed_follow (trace : Trace σ) (round : Round) (machine : Machine σ) :
    (trace.follow round machine).executed = trace.finished.flatMap (·.changes) ++ round.changes := by
  simp only [follow, executed]
  split <;> simp

private theorem aligned_follow (trace : Trace σ) (round : Round) (machine : Machine σ) :
    (trace.follow round machine).Aligned := by
  simp only [follow, Aligned]
  split
  next waits => simp [waits]
  next closed => simpa using closed

/-- A turn without a batch leaves the notes as they are. -/
theorem note_quiet {trace : Trace σ} (aligned : trace.Aligned) {machine : Machine σ}
    (kept : machine.scheduler.pending = [] → trace.machine.scheduler.pending = [])
    (same : machine.scheduler.waiting = trace.machine.scheduler.waiting) :
    trace.note machine [] = { trace with machine } := by
  have quiet : (!trace.machine.scheduler.pending.isEmpty && machine.scheduler.pending.isEmpty) = false := by
    cases shape : machine.scheduler.pending with
    | nil => simp [kept shape]
    | cons change more => simp
  simp only [note, quiet, Bool.false_eq_true, if_false]
  cases held : trace.current with
  | none => rfl
  | some round =>
    have waits : machine.scheduler.waiting.isSome = true := by
      rw [same, ← show trace.current.isSome = _ from aligned, held]
      rfl
    simp [follow, waits]

theorem note_begun {trace : Trace σ} {machine : Machine σ} (outcomes : List Outcome)
    (gathered : trace.machine.scheduler.pending ≠ []) (gone : machine.scheduler.pending = []) :
    trace.note machine outcomes =
      trace.follow { changes := trace.machine.scheduler.pending, outcomes } machine := by
  simp [note, gathered, gone]

theorem note_resumed {trace : Trace σ} {machine : Machine σ} (outcomes : List Outcome) {round : Round}
    (held : trace.current = some round)
    (same : machine.scheduler.pending = trace.machine.scheduler.pending) :
    trace.note machine outcomes =
      trace.follow { round with outcomes := round.outcomes ++ outcomes } machine := by
  have quiet : (!trace.machine.scheduler.pending.isEmpty && machine.scheduler.pending.isEmpty) = false := by
    rw [same]
    simp
  simp only [note, quiet, Bool.false_eq_true, if_false, held]

theorem Aligned.current_none {trace : Trace σ} (aligned : trace.Aligned)
    (free : trace.machine.scheduler.waiting = none) : trace.current = none := by
  simpa [Aligned, free] using aligned

theorem Aligned.current_some {trace : Trace σ} (aligned : trace.Aligned) {waiting : Waiting}
    (held : trace.machine.scheduler.waiting = some waiting) : ∃ round, trace.current = some round := by
  rw [Aligned, held] at aligned
  exact Option.isSome_iff_exists.mp aligned

end Trace

section
variable {trace : Trace σ} {machine : Machine σ} {outcomes : List Outcome}

/-- What is noted when the gathered changes are applied, after a command was taken or not. -/
theorem Applied.noted {next : After} {before : Scheduler}
    (applied : Applied next before outcomes machine.scheduler) (aligned : trace.Aligned)
    (same : before.waiting = trace.machine.scheduler.waiting)
    (gathered : before.pending = trace.machine.scheduler.pending) :
    (before.pending = [] ∧ machine.scheduler = before.proceed next ∧
        trace.note machine outcomes = { trace with machine }) ∨
      ∃ now plan, before.pending ≠ [] ∧ plan.changed = Plan.mentioned before.pending ∧
        Ran (before.begin now plan next).1 (before.begin now plan next).2 outcomes machine.scheduler ∧
        trace.note machine outcomes = trace.follow { changes := before.pending, outcomes } machine := by
  generalize shape : machine.scheduler = after at applied
  cases applied with
  | nothing empty =>
    refine .inl ⟨empty, rfl, Trace.note_quiet aligned (fun _ => gathered ▸ empty) ?_⟩
    rw [shape, Scheduler.waiting_proceed, same]
  | batch now plan outcomes after some covers ran =>
    refine .inr ⟨now, plan, some, covers, ran, ?_⟩
    rw [gathered] at some ⊢
    apply Trace.note_begun outcomes some
    rw [shape]
    exact ran.pending

theorem Applied.conserves {next : After} {before : Scheduler}
    (applied : Applied next before outcomes machine.scheduler) (aligned : trace.Aligned)
    (free : trace.machine.scheduler.waiting = none) (same : before.waiting = trace.machine.scheduler.waiting)
    (gathered : before.pending = trace.machine.scheduler.pending) :
    (trace.note machine outcomes).Aligned ∧
      (trace.note machine outcomes).executed ++ machine.scheduler.pending =
        trace.executed ++ trace.machine.scheduler.pending := by
  rcases applied.noted aligned same gathered with ⟨empty, closed, noted⟩ | ⟨now, plan, some, -, ran, noted⟩
  · rw [noted, closed, Scheduler.pending_proceed, gathered]
    refine ⟨?_, rfl⟩
    rw [Trace.Aligned, aligned.current_none free, closed, Scheduler.waiting_proceed, same, free]
    rfl
  · rw [noted, Trace.executed_follow, ran.pending, ← gathered]
    refine ⟨Trace.aligned_follow _ _ _, ?_⟩
    simp [Scheduler.begin, Trace.executed, aligned.current_none free]

/-- Changes go from the mailbox to the gathered changes and on into a batch, in this order. -/
theorem Turned.conserves (turned : Turned trace.machine.scheduler outcomes machine.scheduler)
    (aligned : trace.Aligned) :
    (trace.note machine outcomes).Aligned ∧
      (trace.note machine outcomes).executed ++ (machine.scheduler.pending ++ machine.scheduler.queued) =
        trace.executed ++ (trace.machine.scheduler.pending ++ trace.machine.scheduler.queued) := by
  generalize shape : machine.scheduler = after at turned
  -- Turns that only take a command begin and end no batch, so nothing is noted for them.
  have still (kept : after.pending = [] → trace.machine.scheduler.pending = [])
      (same : after.waiting = trace.machine.scheduler.waiting) :
      (trace.note machine []).Aligned ∧ (trace.note machine []).executed = trace.executed := by
    rw [Trace.note_quiet aligned (shape ▸ kept) (shape ▸ same)]
    exact ⟨by rw [Trace.Aligned, shape, same]; exact aligned, rfl⟩
  cases turned with
  | rests =>
    obtain ⟨aligned, same⟩ := still id rfl
    exact ⟨aligned, by rw [same]⟩
  | skips rest ready first =>
    obtain ⟨aligned, same⟩ := still id rfl
    refine ⟨aligned, ?_⟩
    rw [same]
    simp [Scheduler.queued, Scheduler.stopping, first, Command.ahead_cons, Command.ends, Command.next?, Command.changes]
  | gathers now changes rest ready first =>
    obtain ⟨aligned, same⟩ := still (fun none => (List.append_eq_nil_iff.mp none).1) rfl
    refine ⟨aligned, ?_⟩
    rw [same]
    simp [Scheduler.queued, Scheduler.stopping, Scheduler.gather, ready, first, Command.ahead_cons, Command.ends,
      Command.next?, Command.changes]
  | obeys command rest next outcomes after ready first follows applied =>
    subst shape
    obtain ⟨aligned, same⟩ := applied.conserves aligned ready.2 rfl rfl
    refine ⟨aligned, ?_⟩
    rw [← List.append_assoc, same, List.append_assoc, applied.queued ready.2]
    simp [Scheduler.queued, Scheduler.stopping, ready, first, Command.ahead_cons, Command.ends, follows,
      Command.changes_of_next follows]
  | closes outcomes after free applied =>
    subst shape
    obtain ⟨aligned, same⟩ := applied.conserves aligned free rfl rfl
    refine ⟨aligned, ?_⟩
    rw [← List.append_assoc, same, List.append_assoc, applied.queued free]
    simp [Scheduler.queued, Scheduler.stopping, free, After.ends]
  | resumes waiting outcomes after held ran =>
    subst shape
    obtain ⟨round, current⟩ := aligned.current_some held
    rw [Trace.note_resumed outcomes current ran.pending, Trace.executed_follow, ran.pending, ran.queued]
    refine ⟨Trace.aligned_follow _ _ _, ?_⟩
    simp [Scheduler.queued, Scheduler.stopping, held, Trace.executed, current]

end

/-! ### What watchers and the history are told -/

structure Round.Recorded (round : Round) (operation : Operation) : Prop where
  changes : round.changes ≠ []
  files : operation.files = Plan.mentioned round.changes
  success : operation.succeeded = true ↔ ∀ outcome ∈ round.outcomes, outcome = .done

/-- What has been published of batches that are over: each was started and completed before the
next one was started, and it has one operation. -/
inductive Reported : List Round → List Notice → List Operation → Prop where
  | none : Reported [] [] []
  | next {rounds : List Round} {notices : List Notice} {operations : List Operation} {round : Round}
      {operation : Operation} (earlier : Reported rounds notices operations) (recorded : round.Recorded operation) :
      Reported (rounds ++ [round])
        (notices ++ [.started operation.id operation.strategy operation.files.length, .completed operation])
        (operations ++ [operation])

inductive Underway : Option Round → Option Waiting → List Notice → Prop where
  | none : Underway none none []
  | some {round : Round} {waiting : Waiting} (changes : round.changes ≠ [])
      (files : waiting.batch.plan.changed = Plan.mentioned round.changes)
      (well : ∀ outcome ∈ round.outcomes, outcome = .done) :
      Underway (some round) (some waiting)
        [.started waiting.batch.id waiting.batch.plan.strategy waiting.batch.plan.changed.length]

def Told (limit : Nat) (finished : List Round) (current : Option Round) (scheduler : Scheduler) : Prop :=
  ∃ notices operations started, Reported finished notices operations ∧
    Underway current scheduler.waiting started ∧ scheduler.notices.toList = notices ++ started ∧
    scheduler.history = { limit, operations := operations.drop (operations.length - limit) }

private theorem History.push_drop {limit : Nat} (some : 0 < limit) (operations : List Operation) (operation : Operation) :
    History.push { limit, operations := operations.drop (operations.length - limit) } operation =
      { limit, operations := (operations ++ [operation]).drop ((operations ++ [operation]).length - limit) } := by
  simp only [push, List.drop_drop, List.length_drop, List.length_append, List.length_singleton]
  rw [List.drop_append_of_le_length (by omega)]
  congr 3
  omega

/-- Going on tells nobody anything. -/
theorem Told.proceed {limit : Nat} {finished : List Round} {current : Option Round} {scheduler : Scheduler}
    (told : Told limit finished current scheduler) (next : After) :
    Told limit finished current (scheduler.proceed next) := by
  cases next <;> exact told

/-- A batch that has been begun is either still noted afterwards, or recorded as its jobs ended. -/
theorem Ran.told {limit : Nat} (positive : 0 < limit) {batch : Running} {before : Scheduler}
    {trace : Trace σ} {machine : Machine σ} {outcomes : List Outcome} {notices : List Notice}
    {operations : List Operation} (round : Round) (ran : Ran batch before outcomes machine.scheduler)
    (reported : Reported trace.finished notices operations)
    (published : before.notices.toList =
      notices ++ [.started batch.id batch.plan.strategy batch.plan.changed.length])
    (kept : before.history = { limit, operations := operations.drop (operations.length - limit) })
    (changes : round.changes ≠ []) (files : batch.plan.changed = Plan.mentioned round.changes)
    (well : ∀ outcome ∈ round.outcomes, outcome = .done) :
    let noted := trace.follow { round with outcomes := round.outcomes ++ outcomes } machine
    Told limit noted.finished noted.current machine.scheduler := by
  generalize shape : machine.scheduler = after at ran
  cases ran with
  | waits stage due fine =>
    simp only [Trace.follow, shape, Scheduler.suspend, Option.isSome_some, if_true]
    refine ⟨notices, operations, _, reported, .some changes files ?_, published, kept⟩
    intro outcome member
    rcases List.mem_append.mp member with old | new
    · exact well outcome old
    · exact fine outcome new
  | ends now failure honest =>
    have closed : (before.conclude now batch failure).waiting = none := Scheduler.waiting_proceed _ _
    simp only [Trace.follow, shape, closed, Option.isSome_none, Bool.false_eq_true, if_false]
    have recorded : Round.Recorded { round with outcomes := round.outcomes ++ outcomes } (batch.record now failure) := by
      refine ⟨changes, files, ?_⟩
      simp only [Operation.succeeded, Running.record, Option.isNone_iff_eq_none, honest, List.mem_append]
      constructor
      · rintro fine outcome (old | new)
        · exact well outcome old
        · exact fine outcome new
      · intro fine outcome new
        exact fine outcome (.inr new)
    refine Told.proceed ⟨_, _, [], reported.next recorded, .none, ?_, ?_⟩ batch.after
    · simp [published, Running.record]
    · rw [kept, History.push_drop positive]

/-- Applying the gathered changes tells of a batch if there are any. -/
theorem Applied.told {limit : Nat} (positive : 0 < limit) {trace : Trace σ} {machine : Machine σ}
    {outcomes : List Outcome} {next : After} {before : Scheduler}
    (applied : Applied next before outcomes machine.scheduler) (aligned : trace.Aligned)
    (free : trace.machine.scheduler.waiting = none) (same : before.waiting = trace.machine.scheduler.waiting)
    (gathered : before.pending = trace.machine.scheduler.pending)
    (told : Told limit trace.finished trace.current before) :
    let noted := trace.note machine outcomes
    Told limit noted.finished noted.current machine.scheduler := by
  rcases applied.noted aligned same gathered with ⟨empty, closed, noted⟩ | ⟨now, plan, some, covers, ran, noted⟩
  · rw [noted, closed]
    exact told.proceed next
  · rw [noted]
    obtain ⟨notices, operations, started, reported, underway, published, kept⟩ := told
    rw [aligned.current_none free, same, free] at underway
    cases underway
    refine Ran.told positive ⟨before.pending, []⟩ ran reported ?_ kept some covers (by simp)
    simp [Scheduler.begin, published]

theorem Turned.told {limit : Nat} (positive : 0 < limit) {trace : Trace σ} {machine : Machine σ}
    {outcomes : List Outcome} (turned : Turned trace.machine.scheduler outcomes machine.scheduler)
    (aligned : trace.Aligned) (told : Told limit trace.finished trace.current trace.machine.scheduler) :
    let noted := trace.note machine outcomes
    Told limit noted.finished noted.current machine.scheduler := by
  generalize shape : machine.scheduler = after at turned
  have still (kept : after.pending = [] → trace.machine.scheduler.pending = [])
      (same : after.waiting = trace.machine.scheduler.waiting)
      (told : Told limit trace.finished trace.current after) :
      Told limit (trace.note machine []).finished (trace.note machine []).current after := by
    rw [Trace.note_quiet aligned (shape ▸ kept) (shape ▸ same)]
    exact told
  cases turned with
  | rests => exact still id rfl told
  | skips rest ready first => exact still id rfl told
  | gathers now changes rest ready first =>
    exact still (fun none => (List.append_eq_nil_iff.mp none).1) rfl told
  | obeys command rest next outcomes after ready first follows applied =>
    subst shape
    exact applied.told positive aligned ready.2 rfl rfl told
  | closes outcomes after free applied =>
    subst shape
    exact applied.told positive aligned free rfl rfl told
  | resumes waiting outcomes after held ran =>
    subst shape
    obtain ⟨notices, operations, started, reported, underway, published, kept⟩ := told
    rw [held] at underway
    generalize current : trace.current = round at underway
    cases underway with
    | some changes files well =>
      rw [Trace.note_resumed outcomes current ran.pending]
      exact Ran.told positive _ ran reported published kept changes files well

end FreshDocs.Batch
