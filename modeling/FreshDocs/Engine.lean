import FreshDocs.Batch.Scheduler
import FreshDocs.Health.Monitor
import FreshDocs.Publisher
import FreshDocs.Settings
import FreshDocs.Sync.Pulse
/-!
The engine keeps the documents of one project in step with its files. Changes go to a scheduler,
whose batches drop what no longer holds and publish documents anew through a hub; finished
batches are announced to the clients of the hub. In the background, if wanted, a pulse flushes
the hub and a monitor takes samples of all components. The engine has the clock: time passes
only while something is waited for, and whatever is due meanwhile happens at its own time.
-/

namespace FreshDocs

structure Engine where
  now : Timestamp
  settings : Settings := {}
  project : Project
  workspace : Workspace
  hub : Sync.Hub
  scheduler : Batch.Scheduler
  monitor : Health.Monitor := { settings := {} }
  pulse : Option Sync.Pulse := none
  /-- How many notices of the scheduler were passed on to clients; absent once the engine has
  stopped. -/
  relayed : Option Nat := some 0

namespace Engine

inductive Error where
  | settings (error : Settings.Error)
  | project (error : Project.Error)
  | scheduler (error : Batch.Scheduler.Error)
  | sync (error : Sync.Error)
  deriving DecidableEq

namespace Error

def message : Error → String
  | .settings error => s!"configuration error: {error.message}"
  | .project error => error.message
  | .scheduler error => s!"scheduler error: {error.message}"
  | .sync error => s!"sync error: {error.message}"

instance : ToJson Error where
  toJson error :=
    match error with
    | .settings _ => Json.failure "Config" error.message
    | .project error => toJson error
    | .scheduler _ => Json.failure "Scheduler" error.message
    | .sync _ => Json.failure "Sync" error.message

def isTransient : Error → Bool
  | .project error => error.isTransient
  | .settings _ | .scheduler _ | .sync _ => false

end Error

/-- What an engine is made from. -/
structure Plan where
  root : Path
  settings : Settings := {}
  analyzer : Analyzer := .stats
  /-- Where documents go, if not where the settings say. -/
  outputDirectory : Option String := none
  /-- Whether a pulse and a monitor run in the background. -/
  background : Bool := true

def projectOf (plan : Plan) : Project :=
  { root := plan.root
    ignored := plan.settings.project.ignored
    analyzer := plan.analyzer
    markdown := ⟨plan.outputDirectory.getD plan.settings.project.outputDirectory⟩ }

def start (now : Timestamp) (files : Files) (plan : Plan) : Except Error Engine :=
  match plan.settings.validate with
  | .error error => .error (.settings error)
  | .ok () =>
    let settings := plan.settings
    let monitor : Health.Monitor := { settings := settings.health }
    .ok
      { now, settings
        project := projectOf plan
        workspace := .ofFiles files settings.stores.artifacts settings.stores.snapshots
        hub := { settings := settings.sync }
        scheduler := .new settings.batch
        monitor := if plan.background then monitor.start now else monitor
        pulse := if plan.background then some (.start settings.sync now) else none }

/-! ### What happens by itself -/

def machine (engine : Engine) : Batch.Machine Sync.Hub :=
  { scheduler := engine.scheduler, workspace := engine.workspace, own := engine.hub }

def withMachine (engine : Engine) (machine : Batch.Machine Sync.Hub) : Engine :=
  { engine with
    scheduler := machine.scheduler, workspace := machine.workspace, hub := machine.own }

/-- The figures that the monitor reads. -/
def inputs (engine : Engine) : Health.Inputs :=
  let artifacts := engine.workspace.artifacts.stats
  { analyses := artifacts.analyses
    templates := artifacts.templates
    snapshots := engine.workspace.snapshots.stats
    updates := some engine.scheduler.history.stats
    sync := some engine.hub.stats }

def beat (engine : Engine) : Engine :=
  let (pulse, hub) := Sync.Pulse.clockwork.settle engine.now (engine.pulse, engine.hub)
  { engine with pulse, hub }

def observe (engine : Engine) : Engine :=
  { engine with monitor := engine.monitor.sampleIfDue engine.now engine.inputs }

def schedule (engine : Engine) : Engine :=
  engine.withMachine
    (Batch.Machine.settle (Publisher.regenerator engine.project) engine.now engine.machine)

/-- Announces a finished batch to clients; the start of one is not announced. -/
def announce (now : Timestamp) (hub : Sync.Hub) : Batch.Notice → Sync.Hub
  | .started .. => hub
  | .completed operation => (hub.broadcastStatus now (toJson operation)).2

/-- Announces what the scheduler has published since the last time. -/
def relay (engine : Engine) : Engine :=
  match engine.relayed with
  | none => engine
  | some seen =>
    let notices := engine.scheduler.notices
    { engine with
      hub := (notices.toList.drop seen).foldl (announce engine.now) engine.hub
      relayed := some notices.size }

/-- Does all that can be done now. -/
def settle (engine : Engine) : Engine :=
  engine.beat.observe.schedule.relay

def nextDue (engine : Engine) : Option Timestamp :=
  Timestamp.earlier? (engine.pulse.map Sync.Pulse.nextDue)
    (Timestamp.earlier? engine.monitor.due (Batch.Machine.nextDue engine.machine))

def clockwork : Clockwork Engine where
  nextDue := nextDue
  settle now engine := settle { engine with now }

def runTo (engine : Engine) (target : Timestamp) : Engine :=
  { clockwork.run engine.now target engine with now := target }

def advance (engine : Engine) (millis : Nat) : Engine :=
  engine.settle.runTo (engine.now.addMillis millis)

/-- Lets the clock run until the scheduler has carried out a command. `fuel` bounds the waits
of the scheduler. -/
def await (ticket : Batch.Ticket) : (fuel : Nat) → Engine → Engine
  | 0, engine => engine
  | fuel + 1, engine =>
    if engine.machine.isAcknowledged ticket then engine
    else
      match Batch.Machine.nextDue engine.machine with
      | none => engine
      | some due => await ticket fuel (engine.runTo due)

/-- Gives the scheduler a command and waits until it was carried out. -/
def command (engine : Engine) (make : Batch.Ticket → Batch.Command) : Except Error Unit × Engine :=
  match engine.scheduler.ask make with
  | .error error => (.error (.scheduler error), engine)
  | .ok (ticket, scheduler) =>
    let engine := settle { engine with scheduler }
    (.ok (), await ticket engine.machine.waitsLeft engine)

/-! ### Reading -/

/-- The live path of a file, without detours. -/
def resolve (engine : Engine) (path : Path) : Path :=
  engine.project.root.resolve path

/-- The result of work on the workspace. -/
def lift {α : Type} (engine : Engine) (result : Except Project.Error α × Workspace) :
    Except Error α × Engine :=
  (result.1.mapError .project, { engine with workspace := result.2 })

/-- The analysis of a file, made anew if need be. -/
def analysis (engine : Engine) (path : Path) : Except Error (Option Analysis) × Engine :=
  let engine := engine.settle
  engine.lift (engine.project.analysis engine.now (engine.resolve path) engine.workspace)

/-- The stored analysis of a file, if it still holds. -/
def storedAnalysis (engine : Engine) (path : Path) : Except Error (Option Analysis) × Engine :=
  let engine := engine.settle
  let (found, workspace) := Project.lookup engine.now (engine.resolve path) engine.workspace
  engine.lift (found.mapError .store, workspace)

/-- The aggregate of what lies below a directory, given as it is. What is due happens after the
store was asked and before files are read. -/
def snapshotAt (engine : Engine) (directory : Path) : Except Error Snapshot × Engine :=
  match engine.lift (Project.lookupSnapshot engine.now directory engine.workspace) with
  | (.error error, engine) => (.error error, engine)
  | (.ok (some snapshot), engine) => (.ok snapshot, engine)
  | (.ok none, engine) =>
    let engine := engine.settle
    engine.lift (engine.project.rebuild engine.now directory engine.workspace)

/-- The aggregate of what lies below a directory of the project. -/
def snapshot (engine : Engine) (path : Path) : Except Error Snapshot × Engine :=
  engine.snapshotAt (engine.resolve path)

/-- The aggregate of the whole project. -/
def scan (engine : Engine) : Except Error Snapshot × Engine :=
  engine.snapshotAt engine.project.root

/-- Figures of all components. -/
structure Stats where
  artifacts : Artifacts.Stats
  snapshots : Store.Stats
  updates : Batch.History.Stats
  sync : Sync.Stats
  phase : Batch.Phase
  sections : Nat

instance : ToJson Stats where
  toJson stats := .object
    [("artifacts", toJson stats.artifacts), ("snapshots", toJson stats.snapshots),
     ("updates", toJson stats.updates), ("sync", toJson stats.sync),
     ("scheduler", toJson stats.phase.name), ("sections", toJson stats.sections)]

def stats (engine : Engine) : Stats :=
  { artifacts := engine.workspace.artifacts.stats
    snapshots := engine.workspace.snapshots.stats
    updates := engine.scheduler.history.stats
    sync := engine.hub.stats
    phase := engine.scheduler.phase
    sections := engine.workspace.sections.count }

/-- Takes a sample, and reports on the series. -/
def health (engine : Engine) : Health.Report × Engine :=
  let monitor := (engine.monitor.sample engine.now engine.inputs).2
  (monitor.report engine.now, { engine with monitor })

/-- The engine as a log shows it. -/
def inspect (engine : Engine) : String :=
  Text.inspectRecord "Livedoc"
    [("root", Text.inspect engine.project.root.text),
     ("scheduler", engine.scheduler.phase.inspect),
     ("sections", toString engine.workspace.sections.count)] false

/-! ### Changing -/

/-- The section with all its paths as keys of the project. -/
def resolveSection (engine : Engine) (part : Section) : Section :=
  let key (name : String) := (engine.resolve ⟨name⟩).key
  { part with
    files := .ofList (part.files.toList.map key)
    template := part.template.map key }

def register (engine : Engine) (part : Section) : Engine :=
  let sections := engine.workspace.sections.register (engine.resolveSection part)
  { engine with workspace := { engine.workspace with sections } }

def unregister (engine : Engine) (id : String) : Bool × Engine :=
  let (removed, sections) := engine.workspace.sections.unregister id
  (removed.isSome, { engine with workspace := { engine.workspace with sections } })

def submit (engine : Engine) (changes : List Change) : Except Error Unit × Engine :=
  let resolved := changes.map (Change.resolve engine.project.root)
  match engine.scheduler.send (.submit resolved) with
  | .error error => (.error (.scheduler error), engine)
  | .ok scheduler => (.ok (), settle { engine with scheduler })

/-- Applies the gathered changes now, and waits for it. -/
def flush (engine : Engine) : Except Error Unit × Engine :=
  engine.command .flush

def edit (engine : Engine) (path content : String) : Sync.QueueOutcome × Engine :=
  let (revision, hub) := engine.hub.draft engine.now .file path content .manual
  let (outcome, hub) := hub.submit engine.now revision
  (outcome, { engine with hub })

def settleConflict (engine : Engine) (id : Uuid) (resolution : Sync.Resolution) :
    Except Error Sync.Revision × Engine :=
  let (revision, hub) := engine.hub.resolve engine.now id resolution
  (revision.mapError .sync, { engine with hub })

/-- Passes queued documents on now, and counts them. -/
def flushSync (engine : Engine) : Nat × Engine :=
  let (report, hub) := engine.hub.flush engine.now
  (report.broadcast, { engine with hub })

/-- Stops what runs in the background; a pulse flushes once more. -/
def stopBackground (engine : Engine) : Engine :=
  { engine with
    hub := if engine.pulse.isSome then Sync.Pulse.stop engine.now engine.hub else engine.hub
    pulse := none
    monitor := engine.monitor.stop
    relayed := none }

/-- Applies what is left and stops. The second time there is nothing left to stop. -/
def shutdown (engine : Engine) : Except Error Unit × Engine :=
  let (outcome, engine) := engine.command .shutdown
  (outcome, engine.stopBackground)

end Engine
end FreshDocs
