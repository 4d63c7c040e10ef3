import FreshDocs.Batch.History
import FreshDocs.Batch.Plan
import FreshDocs.Batch.Regenerator
import FreshDocs.Time.Clockwork
/-!
The scheduler: it gathers changes into a batch, closes the batch after a quiet time, and applies
one batch at a time. Commands that arrive meanwhile wait in a mailbox. A batch that waits, for
its regenerator or between two sections, is kept as data: what it is waiting for, and what is
left to do. A failed batch is recorded and the scheduler goes on.
-/

namespace FreshDocs.Batch

/-- What the scheduler is seen to be doing. -/
inductive Phase where
  | idle
  | batching
  | executing
  deriving DecidableEq

def Phase.name : Phase → String
  | .idle => "idle"
  | .batching => "batching"
  | .executing => "executing"

def Phase.inspect : Phase → String
  | .idle => "Idle"
  | .batching => "Batching"
  | .executing => "Executing"

/-- What the scheduler publishes. -/
inductive Notice where
  | started (id : Uuid) (strategy : Strategy) (files : Nat)
  | completed (operation : Operation)

/-- A notice as watchers see it: its name, and what it is about. -/
instance : ToJson Notice where
  toJson
    | .started id strategy files => .object
      [("event", .string "batch_started"), ("id", toJson id), ("type", toJson strategy),
       ("files", toJson files)]
    | .completed operation => .object
      [("event", .string "operation_completed"), ("operation", toJson operation)]

/-- The number under which an answer to a command is awaited. -/
abbrev Ticket := Nat

inductive Command where
  | submit (changes : List Change)
  | flush (ticket : Ticket)
  | shutdown (ticket : Ticket)
  /-- Nobody is left to send anything. -/
  | hangUp
  deriving DecidableEq

/-- What follows when a batch is done. -/
inductive After where
  | gather
  | acknowledge (ticket : Ticket)
  | stop (ticket : Option Ticket)
  deriving DecidableEq

/-- What an unfinished batch waits for. -/
inductive Stage where
  /-- The regenerator, which then acts; `rest` are the sections after the current one. -/
  | acting (job : Job) (rest : List Section)
  /-- The end of the pause before the next section. -/
  | pausing (rest : List Section)

/-- A batch that is being applied. -/
structure Running where
  id : Uuid
  plan : Plan
  startedAt : Timestamp
  after : After

def Running.record (batch : Running) (now : Timestamp) (failure : Option String) : Operation :=
  { id := batch.id
    strategy := batch.plan.strategy
    files := batch.plan.changed
    sections := batch.plan.sections.map (·.id)
    startedAt := batch.startedAt
    completedAt := now
    duration := batch.startedAt.gapMillis now
    failure }

structure Waiting where
  batch : Running
  stage : Stage
  due : Timestamp

structure Scheduler where
  settings : Settings
  history : History
  /-- All that was published, oldest first. -/
  notices : Array Notice := #[]
  phase : Phase := .idle
  /-- Changes gathered for the next batch, in the order in which they came. -/
  pending : List Change := []
  /-- When the open batch was begun. -/
  openedAt : Option Timestamp := none
  /-- When the open batch closes. -/
  deadline : Option Timestamp := none
  mailbox : List Command := []
  waiting : Option Waiting := none
  /-- Whether commands are still taken. -/
  accepting : Bool := true
  /-- The tickets of commands that were carried out. -/
  acknowledged : List Ticket := []
  nextTicket : Ticket := 0
  ids : Uuid.Supply := { space := 2 }

namespace Scheduler

def new (settings : Settings) : Scheduler :=
  { settings, history := History.empty settings.historyLimit }

def inspect (scheduler : Scheduler) : String :=
  Text.inspectRecord "UpdateScheduler"
    [("config", scheduler.settings.inspect), ("state", scheduler.phase.inspect)] false

inductive Error where
  /-- The scheduler has stopped. -/
  | closed
  /-- A store failed. -/
  | store (error : StoreError)
  deriving DecidableEq

def Error.message : Error → String
  | .closed => "scheduler is not running"
  | .store error => s!"cache error: {error.message}"

def Error.kind : Error → String
  | .closed => "Closed"
  | .store _ => "Cache"

instance : ToJson Error := ⟨fun error => Json.failure error.kind error.message⟩

def send (scheduler : Scheduler) (command : Command) : Except Error Scheduler :=
  if scheduler.accepting then
    .ok { scheduler with mailbox := scheduler.mailbox ++ [command] }
  else .error .closed

/-- Puts a command into the mailbox that will be answered under a new ticket. -/
def ask (scheduler : Scheduler) (command : Ticket → Command) : Except Error (Ticket × Scheduler) :=
  let ticket := scheduler.nextTicket
  (scheduler.send (command ticket)).map fun sent =>
    (ticket, { sent with nextTicket := ticket + 1 })

/-- Adds changes to the open batch, or opens one, and starts the quiet time again. -/
def gather (scheduler : Scheduler) (now : Timestamp) (changes : List Change) : Scheduler :=
  let opened := scheduler.openedAt.getD now
  { scheduler with
    pending := scheduler.pending ++ changes
    openedAt := some opened
    deadline := some (Timestamp.earlier (now.addMillis scheduler.settings.window)
      (opened.addMillis scheduler.settings.longestWait))
    phase := .batching }

/-- Goes on after a batch, or where there was none. -/
def proceed (scheduler : Scheduler) : After → Scheduler
  | .gather => { scheduler with phase := .idle }
  | .acknowledge ticket =>
    { scheduler with phase := .idle, acknowledged := ticket :: scheduler.acknowledged }
  | .stop ticket =>
    { scheduler with
      phase := .idle
      accepting := false
      mailbox := []
      acknowledged := ticket.toList ++ scheduler.acknowledged }

/-- Records the end of a batch and goes on. -/
def conclude (scheduler : Scheduler) (now : Timestamp) (batch : Running)
    (failure : Option String) : Scheduler :=
  let operation := batch.record now failure
  { scheduler with
    waiting := none
    history := scheduler.history.push operation
    notices := scheduler.notices.push (.completed operation) }.proceed batch.after

/-- Makes a batch of the gathered changes, by a plan that was made for them. -/
def begin (scheduler : Scheduler) (now : Timestamp) (plan : Plan) (after : After) :
    Running × Scheduler :=
  let (id, ids) := scheduler.ids.draw
  ({ id, plan, startedAt := now, after },
    { scheduler with
      ids
      phase := .executing
      pending := []
      openedAt := none
      deadline := none
      notices := scheduler.notices.push (.started id plan.strategy plan.changed.length) })

def suspend (scheduler : Scheduler) (batch : Running) (stage : Stage) (due : Timestamp) :
    Scheduler :=
  { scheduler with waiting := some { batch, stage, due } }

end Scheduler

/-- A scheduler, what it works on, and its regenerator's own state. -/
structure Machine (σ : Type) where
  scheduler : Scheduler
  workspace : Workspace
  own : σ

namespace Machine

variable {σ : Type}

def modify (machine : Machine σ) (change : Scheduler → Scheduler) : Machine σ :=
  { machine with scheduler := change machine.scheduler }

/-- Lets the regenerator take a job on, and says how long it waits before it acts. -/
def start (regenerator : Regenerator σ) (now : Timestamp) (job : Job) (machine : Machine σ) :
    Nat × Machine σ :=
  let (delay, own) := regenerator.start job now machine.own
  (delay, { machine with own })

def act (regenerator : Regenerator σ) (now : Timestamp) (job : Job) (machine : Machine σ) :
    Option String × Machine σ :=
  let (outcome, workspace, own) := regenerator.act job now (machine.workspace, machine.own)
  (outcome.failure?, { machine with workspace, own })

/-- Makes one section anew and stamps it. -/
def actSection (regenerator : Regenerator σ) (now : Timestamp) (part : Section)
    (machine : Machine σ) : Option String × Machine σ :=
  match act regenerator now (.single part) machine with
  | (some failure, machine) => (some failure, machine)
  | (none, machine) =>
    let sections := machine.workspace.sections.markUpdated part.id now
    (none, { machine with workspace := { machine.workspace with sections } })

/-- Pauses before the sections that are left, or concludes when there are none. -/
def pause (now : Timestamp) (batch : Running) (rest : List Section) (machine : Machine σ) :
    Machine σ :=
  machine.modify fun scheduler =>
    if rest.isEmpty then scheduler.conclude now batch none
    else scheduler.suspend batch (.pausing rest) (now.addMillis scheduler.settings.sectionDelay)

/-- Makes sections anew, one after the other, until one fails or something has to be waited
for. -/
def runSections (regenerator : Regenerator σ) (now : Timestamp) (batch : Running) :
    List Section → Machine σ → Machine σ
  | [], machine => machine.modify (·.conclude now batch none)
  | part :: rest, machine =>
    let (delay, machine) := start regenerator now (.single part) machine
    if delay = 0 then
      match actSection regenerator now part machine with
      | (some failure, machine) => machine.modify (·.conclude now batch (some failure))
      | (none, machine) =>
        if machine.scheduler.settings.sectionDelay = 0 then
          runSections regenerator now batch rest machine
        else pause now batch rest machine
    else machine.modify (·.suspend batch (.acting (.single part) rest) (now.addMillis delay))

/-- Does a job that is the whole of a batch. -/
def runJob (regenerator : Regenerator σ) (now : Timestamp) (batch : Running) (job : Job)
    (machine : Machine σ) : Machine σ :=
  let (delay, machine) := start regenerator now job machine
  if delay = 0 then
    let (failure, machine) := act regenerator now job machine
    machine.modify (·.conclude now batch failure)
  else machine.modify (·.suspend batch (.acting job []) (now.addMillis delay))

/-- Drops from the stores what no longer holds after the changes of a plan. -/
def invalidate (now : Timestamp) (settings : Settings) (plan : Plan) (workspace : Workspace) :
    Workspace :=
  let paths (keys : List String) := keys.map Path.mk
  let artifacts :=
    (paths plan.removed).foldl (fun cache path => (cache.remove path).2) workspace.artifacts
  let snapshots := (workspace.snapshots.invalidateUncovered now plan.changed).2
  let (artifacts, snapshots) :=
    match plan.strategy with
    | .full => (artifacts.clear, snapshots.clear)
    | .templates =>
      let artifacts := (Artifacts.invalidateTemplates (paths plan.templates) artifacts).2
      let sources := plan.live.filter (!settings.isTemplate ·)
      ((Artifacts.invalidateAll (paths sources) artifacts).2, snapshots)
    | .sections | .incremental =>
      ((Artifacts.invalidateAll (paths plan.live) artifacts).2, snapshots)
  { workspace with artifacts, snapshots }

def execute (regenerator : Regenerator σ) (now : Timestamp) (batch : Running)
    (machine : Machine σ) : Machine σ :=
  let workspace := invalidate now machine.scheduler.settings batch.plan machine.workspace
  let machine := { machine with workspace }
  match batch.plan.strategy with
  | .full => runJob regenerator now batch .everything machine
  | .templates => runJob regenerator now batch (.templates batch.plan.templates) machine
  | .sections => runSections regenerator now batch batch.plan.sections machine
  | .incremental => machine.modify (·.conclude now batch none)

/-- Takes the gathered changes and applies them; without any, goes on at once. -/
def apply (regenerator : Regenerator σ) (now : Timestamp) (after : After) (machine : Machine σ) :
    Machine σ :=
  let scheduler := machine.scheduler
  if scheduler.pending.isEmpty then machine.modify (·.proceed after)
  else
    let plan := Plan.ofChanges scheduler.settings machine.workspace.artifacts.length
      machine.workspace.sections scheduler.pending
    let (batch, scheduler) := scheduler.begin now plan after
    execute regenerator now batch { machine with scheduler }

def resume (regenerator : Regenerator σ) (now : Timestamp) (waiting : Waiting)
    (machine : Machine σ) : Machine σ :=
  let batch := waiting.batch
  match waiting.stage with
  | .pausing rest => runSections regenerator now batch rest machine
  | .acting (.single part) rest =>
    match actSection regenerator now part machine with
    | (some failure, machine) => machine.modify (·.conclude now batch (some failure))
    | (none, machine) =>
      if machine.scheduler.settings.sectionDelay = 0 then
        runSections regenerator now batch rest machine
      else pause now batch rest machine
  | .acting job _ =>
    let (failure, machine) := act regenerator now job machine
    machine.modify (·.conclude now batch failure)

def carryOut (regenerator : Regenerator σ) (now : Timestamp) (machine : Machine σ) :
    Command → Machine σ
  | .submit [] => machine
  | .submit changes => machine.modify (·.gather now changes)
  | .flush ticket => apply regenerator now (.acknowledge ticket) machine
  | .shutdown ticket => apply regenerator now (.stop (some ticket)) machine
  | .hangUp => apply regenerator now (.stop none) machine

/-- Carries out the next command, unless a batch has to be waited for or the scheduler has
stopped. -/
def take (regenerator : Regenerator σ) (now : Timestamp) (machine : Machine σ) : Machine σ :=
  match machine.scheduler.mailbox with
  | [] => machine
  | command :: rest =>
    if machine.scheduler.accepting && machine.scheduler.waiting.isNone then
      carryOut regenerator now (machine.modify ({ · with mailbox := rest })) command
    else machine

/-- Carries out so many commands, as far as that is possible now. -/
def drain (regenerator : Regenerator σ) (now : Timestamp) : Nat → Machine σ → Machine σ
  | 0, machine => machine
  | count + 1, machine => drain regenerator now count (take regenerator now machine)

def wake (regenerator : Regenerator σ) (now : Timestamp) (machine : Machine σ) : Machine σ :=
  match machine.scheduler.waiting with
  | some waiting => if waiting.due ≤ now then resume regenerator now waiting machine else machine
  | none => machine

/-- Closes the open batch if its time has come. -/
def closeWindow (regenerator : Regenerator σ) (now : Timestamp) (machine : Machine σ) : Machine σ :=
  match machine.scheduler.waiting, machine.scheduler.deadline with
  | none, some deadline =>
    if deadline ≤ now then apply regenerator now .gather machine else machine
  | _, _ => machine

/-- Does all that can be done now. -/
def settle (regenerator : Regenerator σ) (now : Timestamp) (machine : Machine σ) : Machine σ :=
  let woken := wake regenerator now machine
  closeWindow regenerator now (drain regenerator now woken.scheduler.mailbox.length woken)

def nextDue (machine : Machine σ) : Option Timestamp :=
  match machine.scheduler.waiting with
  | some waiting => some waiting.due
  | none => machine.scheduler.deadline

def clockwork (regenerator : Regenerator σ) : Clockwork (Machine σ) where
  nextDue := nextDue
  settle := settle regenerator

/-- Whether a command was carried out. -/
def isAcknowledged (machine : Machine σ) (ticket : Ticket) : Bool :=
  machine.scheduler.acknowledged.contains ticket

/-- A bound on the number of waits before the mailbox is empty. -/
def waitsLeft (machine : Machine σ) : Nat :=
  let current := (machine.scheduler.waiting.map (·.batch.plan.sections.length)).getD 0
  2 * (current + 1) +
    2 * (machine.workspace.sections.count + 1) * (machine.scheduler.mailbox.length + 1)

end Machine
end FreshDocs.Batch
