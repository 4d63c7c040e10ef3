import FreshDocs.Engine
import FreshDocs.Proofs.BatchPledges
import FreshDocs.Proofs.BatchShutdown
import FreshDocs.Proofs.HubPending
import FreshDocs.Proofs.PublisherCalls

/-! What happens to an engine, as its scheduler and its hub see it. The scheduler is asked for things and finds what it
works on altered meanwhile. The hub gets calls: some are made by hand, the others by batches and by what runs in the
background. Whatever is due while the clock runs hands in no changes, and makes no calls by hand. -/

namespace FreshDocs
open Batch
open Sync.Hub (Gets)

theorem Batch.Machine.run_append {σ : Type} (regenerator : Regenerator σ) (machine : Machine σ)
    (first second : List (Timestamp × Action σ)) :
    machine.run regenerator (first ++ second) = (machine.run regenerator first).run regenerator second := by
  induction first generalizing machine with
  | nil => rfl
  | cons entry rest ih => exact ih _

private theorem Sync.Pulse.fire_gets (now : Timestamp) (pulse : Pulse) (hub : Hub) : Gets [] hub (fire now pulse hub).2 := by
  have flushed : Gets [] hub (flushIfDue now pulse hub).2 := by
    unfold flushIfDue
    split
    · exact .call now hub .flush
    · exact .refl hub
  have beaten (pulse : Pulse) (hub : Hub) : Gets [] hub (beatIfDue now pulse hub).2 := by
    unfold beatIfDue
    split
    · exact .call now hub .heartbeat
    · exact .refl hub
  exact flushed.trans (beaten _ _)

namespace Engine

/-- The second engine comes from the first. Meanwhile changes were handed in by these lists, nobody asked the scheduler
to stop, and these calls of the hub were made by hand. -/
structure Goes (lists : List (List Change)) (byHand : List Sync.Hub.Call) (before after : Engine) : Prop where
  project : after.project = before.project
  pulse : after.pulse.isSome = before.pulse.isSome
  machine : ∃ actions, after.machine = before.machine.run (Publisher.regenerator before.project) actions ∧
    actions.any (·.2.ends) = false ∧ portions actions = lists
  hub : Gets byHand before.hub after.hub

theorem Goes.trans {first second third : Engine} {lists others : List (List Change)} {byHand more : List Sync.Hub.Call}
    (one : Goes lists byHand first second) (two : Goes others more second third) :
    Goes (lists ++ others) (byHand ++ more) first third := by
  obtain ⟨actions, run, free, some⟩ := one.machine
  obtain ⟨further, ran, going, rest⟩ := two.machine
  refine ⟨two.project.trans one.project, two.pulse.trans one.pulse, ⟨actions ++ further, ?_, ?_, ?_⟩, one.hub.trans two.hub⟩
  · rw [ran, one.project, run, Machine.run_append]
  · rw [List.any_append, free, going]
    rfl
  · rw [portions, List.flatMap_append, ← portions, ← portions, some, rest]

theorem Goes.aside {before after : Engine} {lists : List (List Change)} {byHand : List Sync.Hub.Call}
    (goes : Goes lists byHand before after) (aside : before.project.analyzer.Aside) : after.project.analyzer.Aside :=
  goes.project ▸ aside

section
variable {engine after : Engine} {byHand : List Sync.Hub.Call}

/-- The scheduler has no part in what becomes of a workspace and a hub by somebody else. -/
theorem goes_of_scheduler (project : after.project = engine.project) (pulse : after.pulse.isSome = engine.pulse.isSome)
    (scheduler : after.scheduler = engine.scheduler) (gets : Gets byHand engine.hub after.hub) : Goes [] byHand engine after := by
  refine ⟨project, pulse, ⟨[(engine.now, .alter after.workspace after.hub)], ?_, rfl, rfl⟩, gets⟩
  simp only [machine, scheduler]
  rfl

theorem Goes.refl (engine : Engine) : Goes [] [] engine engine :=
  goes_of_scheduler rfl rfl rfl (.refl engine.hub)

private theorem receive_goes (engine : Engine) (action : Action Sync.Hub) {scheduler : Scheduler}
    (same : (action.apply (Publisher.regenerator engine.project) engine.now engine.machine) =
      { engine.machine with scheduler }) (going : action.ends = false) :
    Goes (portion action.changes) [] engine { engine with scheduler } := by
  refine ⟨rfl, rfl, ⟨[(engine.now, action)], same.symm, ?_, ?_⟩, .refl engine.hub⟩
  · simp [going]
  · simp [portions]

end

/-! ### What happens by itself -/

section
variable (engine : Engine)

private theorem beat_goes : Goes [] [] engine engine.beat := by
  refine goes_of_scheduler rfl ?_ rfl ?_
  · simp only [beat, Sync.Pulse.clockwork]
    cases engine.pulse <;> rfl
  · simp only [beat, Sync.Pulse.clockwork]
    cases engine.pulse with
    | none => exact .refl engine.hub
    | some pulse => exact Sync.Pulse.fire_gets engine.now pulse engine.hub

private theorem observe_goes : Goes [] [] engine engine.observe :=
  goes_of_scheduler rfl rfl rfl (.refl engine.hub)

private theorem announce_gets (now : Timestamp) (hub : Sync.Hub) (notice : Notice) : Gets [] hub (announce now hub notice) := by
  cases notice with
  | started => exact .refl hub
  | completed operation => exact .call now hub (.status (toJson operation))

private theorem relay_goes : Goes [] [] engine engine.relay := by
  unfold relay
  split
  · exact .refl engine
  next seen =>
    refine goes_of_scheduler rfl rfl rfl ?_
    exact List.foldlRecOn _ _ (.refl engine.hub) fun hub gets notice _ => gets.trans (announce_gets engine.now hub notice)

variable {engine} (aside : engine.project.analyzer.Aside)
include aside

private theorem schedule_goes : Goes [] [] engine engine.schedule := by
  refine ⟨rfl, rfl, ⟨[(engine.now, .settle)], rfl, rfl, rfl⟩, ?_⟩
  exact Publisher.works_gets aside (Machine.settle_works (Publisher.regenerator engine.project) engine.now).1

theorem settle_goes : Goes [] [] engine engine.settle := by
  have observed := engine.beat_goes.trans engine.beat.observe_goes
  have scheduled := observed.trans (schedule_goes (observed.aside aside))
  exact scheduled.trans (relay_goes _)

theorem clockwork_goes (now : Timestamp) : Goes [] [] engine (clockwork.settle now engine) := by
  have settled : Goes [] [] { engine with now } (settle { engine with now }) := settle_goes aside
  exact ⟨settled.project, settled.pulse, settled.machine, settled.hub⟩

theorem runTo_goes (target : Timestamp) : Goes [] [] engine (engine.runTo target) := by
  have gone : Goes [] [] engine (clockwork.run engine.now target engine) := by
    refine @Clockwork.run_keeps Engine clockwork (Goes [] [] engine) target ?_ engine.now engine (.refl engine)
    intro now state _ gone
    exact gone.trans (clockwork_goes (gone.aside aside) now)
  exact ⟨gone.project, gone.pulse, gone.machine, gone.hub⟩

theorem await_goes (ticket : Ticket) (fuel : Nat) : Goes [] [] engine (await ticket fuel engine) := by
  induction fuel generalizing engine with
  | zero => exact .refl engine
  | succ fuel ih =>
    unfold await
    split
    · exact .refl engine
    · split
      · exact .refl engine
      next due _ =>
        have gone := runTo_goes aside due
        exact gone.trans (ih (gone.aside aside))

end

/-! ### What is done with an engine -/

inductive Use where
  | submit (changes : List Change)
  | flush
  | edit (path content : String)
  | settleConflict (id : Uuid) (resolution : Sync.Resolution)
  | flushSync
  | advance (millis : Nat)
  | register (part : Section)
  | unregister (id : String)
  | analysis (path : Path)
  | storedAnalysis (path : Path)
  /-- The aggregate of what lies below a directory is asked for. -/
  | snapshot (path : Path)
  /-- Others write files. -/
  | alter (files : Files)

namespace Use

def apply (engine : Engine) : Use → Engine
  | .submit changes => (engine.submit changes).2
  | .flush => engine.flush.2
  | .edit path content => (engine.edit path content).2
  | .settleConflict id resolution => (engine.settleConflict id resolution).2
  | .flushSync => engine.flushSync.2
  | .advance millis => engine.advance millis
  | .register part => engine.register part
  | .unregister id => (engine.unregister id).2
  | .analysis path => (engine.analysis path).2
  | .storedAnalysis path => (engine.storedAnalysis path).2
  | .snapshot path => (engine.snapshot path).2
  | .alter files => { engine with workspace := { engine.workspace with files } }

def lists (root : Path) : Use → List (List Change)
  | .submit changes => portion (changes.map (Change.resolve root))
  | _ => []

def call? : Use → Option Sync.Hub.Call
  | .edit path content => some (.publish .file path content .manual)
  | .settleConflict id resolution => some (.resolve id resolution)
  | _ => none

end Use

def run (engine : Engine) : List Use → Engine
  | [] => engine
  | use :: rest => run (use.apply engine) rest

section
variable {engine : Engine} (aside : engine.project.analyzer.Aside)

include aside in
private theorem flush_goes : Goes [] [] engine engine.flush.2 := by
  unfold flush command
  cases asked : engine.scheduler.ask .flush with
  | error error => exact .refl engine
  | ok answer =>
    obtain ⟨ticket, scheduler⟩ := answer
    have received : Goes (portion []) [] engine { engine with scheduler } :=
      receive_goes engine .flush (by simp [Action.apply, Machine.receive, machine, asked, Except.map]) rfl
    have settled := received.trans (settle_goes (received.aside aside))
    exact settled.trans (await_goes (settled.aside aside) ticket _)

include aside in
theorem submit_goes (changes : List Change) :
    Goes ((Use.submit changes).lists engine.project.root) [] engine (engine.submit changes).2 := by
  unfold submit
  dsimp only
  cases sent : engine.scheduler.send (.submit (changes.map (Change.resolve engine.project.root))) with
  | error error =>
    exact receive_goes engine (.submit _) (by simp [Action.apply, Machine.receive, machine, sent]) rfl
  | ok scheduler =>
    have received : Goes (portion (changes.map (Change.resolve engine.project.root))) [] engine { engine with scheduler } :=
      receive_goes engine (.submit _) (by simp [Action.apply, Machine.receive, machine, sent]) rfl
    have settled := received.trans (settle_goes (received.aside aside))
    rwa [List.append_nil] at settled

private theorem lift_goes {α : Type} (engine : Engine) (result : Except Project.Error α × Workspace) :
    Goes [] [] engine (engine.lift result).2 :=
  goes_of_scheduler rfl rfl rfl (.refl engine.hub)

include aside in
private theorem snapshotAt_goes (directory : Path) : Goes [] [] engine (engine.snapshotAt directory).2 := by
  have looked := lift_goes engine (Project.lookupSnapshot engine.now directory engine.workspace)
  unfold snapshotAt
  generalize engine.lift (Project.lookupSnapshot engine.now directory engine.workspace) = result at looked ⊢
  obtain ⟨answer, after⟩ := result
  rcases answer with error | (_ | found)
  · exact looked
  · have settled := looked.trans (settle_goes (looked.aside aside))
    exact settled.trans (lift_goes _ _)
  · exact looked

include aside in
private theorem use_goes (use : Use) : Goes (use.lists engine.project.root) use.call?.toList engine (use.apply engine) := by
  cases use with
  | submit changes => exact submit_goes aside changes
  | flush => exact flush_goes aside
  | edit path content =>
    exact goes_of_scheduler rfl rfl rfl (.call engine.now engine.hub (.publish .file path content .manual))
  | settleConflict id resolution =>
    exact goes_of_scheduler rfl rfl rfl (.call engine.now engine.hub (.resolve id resolution))
  | flushSync => exact goes_of_scheduler rfl rfl rfl (.call engine.now engine.hub .flush)
  | advance millis =>
    have settled := settle_goes aside
    exact settled.trans (runTo_goes (settled.aside aside) _)
  | register part => exact goes_of_scheduler rfl rfl rfl (.refl engine.hub)
  | unregister id => exact goes_of_scheduler rfl rfl rfl (.refl engine.hub)
  | analysis path | storedAnalysis path => exact (settle_goes aside).trans (lift_goes _ _)
  | snapshot path => exact snapshotAt_goes aside _
  | alter files => exact goes_of_scheduler rfl rfl rfl (.refl engine.hub)

include aside in
/-- Whatever is done with an engine, its scheduler gets the changes that were handed in, in this order, and its hub the
calls that were made by hand. -/
theorem run_goes (uses : List Use) :
    Goes (uses.flatMap (Use.lists engine.project.root)) (uses.filterMap Use.call?) engine (engine.run uses) := by
  induction uses generalizing engine with
  | nil => exact .refl engine
  | cons use rest ih =>
    have used := use_goes aside use
    have later := used.trans (ih (used.aside aside))
    rw [used.project] at later
    cases called : use.call? with
    | none => simpa [called, run] using later
    | some call => simpa [called, run] using later

end

end Engine
end FreshDocs
