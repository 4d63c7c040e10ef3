import FreshDocs.Proofs.BatchTurns

/-! A run of a scheduler as it is seen from outside: which batches were begun, with which changes,
and how the jobs of the regenerator ended for each of them. Everybody may ask for something at any
time, and the scheduler may be held up anywhere between two turns. -/

namespace FreshDocs.Batch

variable {σ : Type}

inductive Action (σ : Type) where
  | submit (changes : List Change)
  | flush
  | shutdown
  /-- Nobody is left to ask for anything. -/
  | hangUp
  /-- Others work on what the regenerator works on. -/
  | alter (workspace : Workspace) (own : σ)
  | turn (kind : Machine.Turn)
  | settle
  /-- The clock runs to a time. -/
  | advance (target : Timestamp)

/-- The machine with its scheduler as it is after a request, if the request was taken. -/
def Machine.receive (machine : Machine σ) : Except Scheduler.Error Scheduler → Machine σ
  | .ok scheduler => { machine with scheduler }
  | .error _ => machine

def Action.apply (regenerator : Regenerator σ) (now : Timestamp) (machine : Machine σ) : Action σ → Machine σ
  | .submit changes => machine.receive (machine.scheduler.send (.submit changes))
  | .flush => machine.receive ((machine.scheduler.ask .flush).map (·.2))
  | .shutdown => machine.receive ((machine.scheduler.ask .shutdown).map (·.2))
  | .hangUp => machine.receive (machine.scheduler.send .hangUp)
  | .alter workspace own => { machine with workspace, own }
  | .turn kind => kind.apply regenerator now machine
  | .settle => machine.settle regenerator now
  | .advance target => (Machine.clockwork regenerator).run now target machine

def Machine.run (regenerator : Regenerator σ) (machine : Machine σ) : List (Timestamp × Action σ) → Machine σ
  | [] => machine
  | (now, action) :: rest => run regenerator (action.apply regenerator now machine) rest

/-- A batch: what it applies, and how the jobs of the regenerator ended for it so far. -/
structure Round where
  changes : List Change
  outcomes : List Outcome

structure Trace (σ : Type) where
  machine : Machine σ
  /-- The batches that are over, oldest first. -/
  finished : List Round := []
  /-- The batch that is being applied. -/
  current : Option Round := none

namespace Trace

def follow (trace : Trace σ) (round : Round) (machine : Machine σ) : Trace σ :=
  if machine.scheduler.waiting.isSome then { trace with machine, current := some round }
  else { machine, finished := trace.finished ++ [round], current := none }

def note (trace : Trace σ) (machine : Machine σ) (outcomes : List Outcome) : Trace σ :=
  let gathered := trace.machine.scheduler.pending
  if !gathered.isEmpty && machine.scheduler.pending.isEmpty then
    trace.follow { changes := gathered, outcomes } machine
  else
    match trace.current with
    | some round => trace.follow { round with outcomes := round.outcomes ++ outcomes } machine
    | none => { trace with machine }

section
variable (regenerator : Regenerator σ)

def turn (now : Timestamp) (trace : Trace σ) (kind : Machine.Turn) : Trace σ :=
  trace.note (kind.apply regenerator now trace.machine) (kind.outcomes regenerator now trace.machine)

def drain (now : Timestamp) : Nat → Trace σ → Trace σ
  | 0, trace => trace
  | count + 1, trace => drain now count (trace.turn regenerator now .take)

def settle (now : Timestamp) (trace : Trace σ) : Trace σ :=
  let woken := trace.turn regenerator now .wake
  (drain regenerator now woken.machine.scheduler.mailbox.length woken).turn regenerator now .closeWindow

def clockwork : Clockwork (Trace σ) where
  nextDue trace := Machine.nextDue trace.machine
  settle := settle regenerator

def step (now : Timestamp) (trace : Trace σ) : Action σ → Trace σ
  | .turn kind => trace.turn regenerator now kind
  | .settle => trace.settle regenerator now
  | .advance target => (clockwork regenerator).run now target trace
  | action => { trace with machine := action.apply regenerator now trace.machine }

def run (trace : Trace σ) : List (Timestamp × Action σ) → Trace σ
  | [] => trace
  | (now, action) :: rest => run (trace.step regenerator now action) rest

/-! ### The machine of a trace runs by itself -/

@[simp] theorem machine_follow (trace : Trace σ) (round : Round) (machine : Machine σ) :
    (trace.follow round machine).machine = machine := by
  unfold follow
  split <;> rfl

@[simp] theorem machine_note (trace : Trace σ) (machine : Machine σ) (outcomes : List Outcome) :
    (trace.note machine outcomes).machine = machine := by
  simp only [note]
  split
  · exact machine_follow trace _ machine
  · split
    · exact machine_follow trace _ machine
    · rfl

@[simp] theorem machine_turn (now : Timestamp) (trace : Trace σ) (kind : Machine.Turn) :
    (trace.turn regenerator now kind).machine = kind.apply regenerator now trace.machine :=
  machine_note trace _ _

private theorem machine_drain (now : Timestamp) (count : Nat) (trace : Trace σ) :
    (drain regenerator now count trace).machine = Machine.drain regenerator now count trace.machine := by
  induction count generalizing trace with
  | zero => rfl
  | succ count ih => rw [drain, ih, machine_turn, Machine.drain, Machine.Turn.apply]

private theorem machine_settle (now : Timestamp) (trace : Trace σ) :
    (trace.settle regenerator now).machine = trace.machine.settle regenerator now := by
  simp only [settle, machine_turn, machine_drain, Machine.Turn.apply, Machine.settle]

theorem machine_step (now : Timestamp) (trace : Trace σ) (action : Action σ) :
    (trace.step regenerator now action).machine = action.apply regenerator now trace.machine := by
  cases action with
  | turn kind => exact machine_turn regenerator now trace kind
  | settle => exact machine_settle regenerator now trace
  | advance target =>
    exact Clockwork.run_map Trace.machine (fun _ => rfl) (machine_settle regenerator) now target trace
  | submit | flush | shutdown | hangUp | alter => rfl

theorem machine_run (trace : Trace σ) (actions : List (Timestamp × Action σ)) :
    (trace.run regenerator actions).machine = trace.machine.run regenerator actions := by
  induction actions generalizing trace with
  | nil => rfl
  | cons entry rest ih => rw [run, ih, machine_step, Machine.run]

end

end Trace
end FreshDocs.Batch
