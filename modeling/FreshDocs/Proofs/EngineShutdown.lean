import FreshDocs.Proofs.EngineWaits

/-! An engine that stops leaves nothing behind. The scheduler is asked to stop behind all that was handed in, so the
last batch applies what is left and its documents are in the hub by the time of the answer. Only then the background
stops, and with it goes one more flush: nothing is queued after it. -/

namespace FreshDocs
open Batch
open Sync.Hub (Gets)

namespace Batch

variable {σ : Type}

/-- A scheduler that has stopped: it has applied these lists of changes, each as a whole and all in this order, and has
told of each batch. -/
structure Scheduler.Finished (limit : Nat) (lists : List (List Change)) (scheduler : Scheduler) : Prop where
  closed : scheduler.accepting = false
  left : scheduler.mailbox = [] ∧ scheduler.waiting = none ∧ scheduler.pending = []
  applied : ∃ (rounds : List Round) (groups : List (List (List Change))), Told limit rounds none scheduler ∧
    rounds.map (·.changes) = groups.map List.flatten ∧ groups.flatten = lists

private theorem Scheduler.ask_shutdown {scheduler : Scheduler} (going : scheduler.ending = false) :
    ∃ asked, scheduler.ask .shutdown = .ok (scheduler.nextTicket, asked) ∧ asked.Pledged scheduler.nextTicket ∧
      asked.waiting = scheduler.waiting := by
  obtain ⟨stopping, free⟩ := Bool.or_eq_false_iff.mp going
  obtain ⟨accepting, current⟩ := Bool.or_eq_false_iff.mp stopping
  have accepting : scheduler.accepting = true := by simpa using accepting
  refine ⟨{ scheduler with
    mailbox := scheduler.mailbox ++ [.shutdown scheduler.nextTicket]
    nextTicket := scheduler.nextTicket + 1 }, by simp [ask, send, accepting, Except.map], ?_, rfl⟩
  refine .queued accepting scheduler.mailbox rfl (fun command member => ?_) fun waiting held => ?_
  · exact Bool.eq_false_iff.mpr (List.any_eq_false.mp free command member)
  · have held : scheduler.waiting = some waiting := held
    simpa [held] using current

namespace Trace

section
variable (regenerator : Regenerator σ) {settings : Settings} {workspace : Workspace} {own : σ}

theorem run_fits {trace : Trace σ} (fits : trace.machine.scheduler.Fits) (actions : List (Timestamp × Action σ)) :
    (trace.run regenerator actions).machine.scheduler.Fits := by
  apply run_keeps regenerator (fun trace => trace.machine.scheduler.Fits) ?_ ?_ ?_ actions fits
  · intro now trace kind fits
    rw [machine_turn]
    exact (Machine.turn_works regenerator now trace.machine kind).2 fits
  · exact fun trace workspace own fits => fits
  · exact fun trace command nextTicket fits _ _ _ => fits

private theorem start_going {actions : List (Timestamp × Action σ)} (free : actions.any (·.2.ends) = false) :
    ((start settings workspace own).run regenerator actions).machine.scheduler.ending = false := by
  have aligned : (start settings workspace own).Aligned := rfl
  have ending := (run_goes regenerator aligned actions).ending
  rwa [free] at ending

/-- Once a request to stop is answered, all that was handed in before is in batches that are over. -/
theorem start_finished {before during : List (Timestamp × Action σ)} {now : Timestamp} (first : before.any (·.2.ends) = false)
    (answered : ((start settings workspace own).run regenerator before).machine.scheduler.nextTicket ∈
      ((start settings workspace own).run regenerator (before ++ (now, .shutdown) :: during)).machine.scheduler.acknowledged) :
    ((start settings workspace own).run regenerator (before ++ (now, .shutdown) :: during)).machine.scheduler.Finished
      (max 1 settings.historyLimit) (Batch.portions before) := by
  have fresh : (start settings workspace own).Aligned := rfl
  have goes := run_goes regenerator fresh (before ++ (now, .shutdown) :: during)
  have portioned := run_portioned regenerator fresh (start_portioned settings workspace own)
    (before ++ (now, .shutdown) :: during)
  rw [earlyPortions_of_end first rfl] at portioned
  have drained := run_drained regenerator (start_drained settings workspace own) (before ++ (now, .shutdown) :: during)
  have told := goes.told _ (by omega) (start_told settings workspace own)
  have closing : ((start settings workspace own).run regenerator (before ++ (now, .shutdown) :: during)).machine.scheduler.Closing
      ((start settings workspace own).run regenerator before).machine.scheduler.nextTicket := by
    rw [run_append]
    exact shutdown_closing regenerator now (run_unused regenerator (start_unused settings workspace own) before)
      (start_accepting regenerator first) during
  have closed := closing.answered answered
  obtain ⟨groups, batches, order⟩ := portioned.stopped goes.aligned drained closed
  have left := drained.shut closed
  rw [Told, goes.aligned.current_none left.2.1] at told
  exact ⟨closed, left, _, groups, told, batches, order⟩

end

end Trace
end Batch

namespace Engine

def opened (now : Timestamp) (files : Files) (plan : Plan) : Engine :=
  { now, settings := plan.settings
    project := projectOf plan
    workspace := .ofFiles files plan.settings.stores.artifacts plan.settings.stores.snapshots
    hub := { settings := plan.settings.sync }
    scheduler := .new plan.settings.batch
    monitor :=
      if plan.background then ({ settings := plan.settings.health } : Health.Monitor).start now
      else { settings := plan.settings.health }
    pulse := if plan.background then some (.start plan.settings.sync now) else none }

private theorem start_eq (now : Timestamp) (files : Files) (plan : Plan) :
    start now files plan = (plan.settings.validate.mapError Error.settings).map fun _ => opened now files plan := by
  unfold start
  cases plan.settings.validate <;> rfl

def attended (engine : Engine) (transports : List Sync.Transport) : Engine :=
  { engine with hub := engine.hub.attend transports }

section
variable {engine : Engine} {settings : Batch.Settings}

private theorem settle_fits (fits : engine.scheduler.Fits) : engine.settle.scheduler.Fits := by
  obtain ⟨hub, relayed, settled⟩ := engine.settle_eq
  rw [settled]
  have beaten : engine.beat.observe.machine.scheduler.Fits := fits
  exact (Machine.settle_works (Publisher.regenerator engine.project) engine.now).2 beaten

/-- A request to stop the scheduler is answered, however long its batches take. -/
theorem command_shutdown (aside : engine.project.analyzer.Aside) (watched : engine.machine.Watched settings)
    (fits : engine.scheduler.Fits) (going : engine.scheduler.ending = false) :
    ∃ scheduler last, engine.scheduler.ask .shutdown = .ok (engine.scheduler.nextTicket, scheduler) ∧
      engine.command .shutdown = (.ok (), last) ∧ Goes [] [] { engine with scheduler } last ∧
      last.machine.Watched settings ∧ engine.scheduler.nextTicket ∈ last.scheduler.acknowledged := by
  obtain ⟨scheduler, asked, pledged, same⟩ := Scheduler.ask_shutdown going
  have still : ({ engine with scheduler } : Engine).machine.Watched settings := by
    have played := Machine.play_watched (Publisher.regenerator engine.project) watched [(engine.now, .shutdown)]
    simpa [Machine.play, Move.action, Action.apply, Machine.receive, machine, asked, Except.map] using played
  have ready := settle_ready still
  have gone : Goes [] [] { engine with scheduler } (settle { engine with scheduler }) := settle_goes aside
  have small : (settle { engine with scheduler }).scheduler.Fits := by
    apply settle_fits
    rwa [Scheduler.Fits, same]
  have nears : (settle { engine with scheduler }).machine.Nears engine.scheduler.nextTicket
      (settle { engine with scheduler }).machine.waitsLeft := by
    obtain ⟨kept, near⟩ := @settle_pledged { engine with scheduler } _ aside pledged
    exact ⟨kept, near.imp_right fun waits => ⟨waits.1, Machine.load_le_waitsLeft small⟩⟩
  have waited := gone.trans (await_goes (gone.aside aside) engine.scheduler.nextTicket
    (settle { engine with scheduler }).machine.waitsLeft)
  refine ⟨scheduler, _, asked, by rw [command, asked], waited, waited.watched still, ?_⟩
  exact await_answers (gone.aside aside) (gone.watched still) ready nears

/-- Nothing is due any more once an engine has stopped. -/
theorem nextDue_stopBackground (watched : engine.machine.Watched settings) (free : engine.scheduler.waiting = none)
    (empty : engine.scheduler.pending = []) : engine.stopBackground.nextDue = none := by
  obtain ⟨times, tracks⟩ := watched
  have deadline : engine.scheduler.deadline = none := by
    rw [show engine.scheduler.deadline = settings.closing? times from tracks.deadline]
    exact Settings.closing?_eq_none.mpr (tracks.pending.mp empty)
  have idle : Machine.nextDue engine.stopBackground.machine = none := by
    have none : engine.stopBackground.machine.scheduler.waiting = none := free
    rw [Machine.nextDue, none]
    exact deadline
  rw [nextDue, idle]
  rfl

end

/-! ### A stop in good order -/

/-- An engine that was just made with a pulse, but for its clients. -/
structure Made (settings : Batch.Settings) (engine : Engine) : Prop where
  scheduler : engine.scheduler = .new settings
  hub : engine.hub.New
  pulse : engine.pulse.isSome = true

section
variable {ready : Engine} {settings : Batch.Settings} (made : ready.Made settings) (aside : ready.project.analyzer.Aside)
  (uses : List Use)
include made aside

/-- A request to stop comes after all that was handed in, and is answered when that is in batches that are over. -/
theorem Made.stops : ∃ last, (ready.run uses).command .shutdown = (.ok (), last) ∧
    last.scheduler.Finished (max 1 settings.historyLimit) (uses.flatMap (Use.lists ready.project.root)) ∧
    last.machine.Watched settings ∧ last.pulse.isSome = true ∧ Gets (uses.filterMap Use.call?) ready.hub last.hub := by
  have used := run_goes aside uses
  obtain ⟨before, run, free, lists⟩ := used.machine
  have start : ready.machine = (Trace.start settings ready.workspace ready.hub).machine := by
    rw [machine, made.scheduler]
    rfl
  have watched : ready.machine.Watched settings := by
    rw [start]
    exact ⟨[], Machine.new_tracks settings⟩
  rw [start, ← Trace.machine_run] at run
  have fits : (ready.run uses).machine.scheduler.Fits := run ▸ Trace.run_fits _ (fun _ held => by cases held) before
  have going : (ready.run uses).machine.scheduler.ending = false := run ▸ Trace.start_going _ free
  obtain ⟨scheduler, last, asked, commanded, gone, kept, answered⟩ :=
    command_shutdown (used.aside aside) (used.watched watched) fits going
  obtain ⟨during, ran, -⟩ := gone.machine
  have received : Action.shutdown.apply (Publisher.regenerator ready.project) (ready.run uses).now (ready.run uses).machine =
      ({ ready.run uses with scheduler } : Engine).machine := by
    simp [Action.apply, Machine.receive, machine, asked, Except.map]
  have whole : last.machine = ((Trace.start settings ready.workspace ready.hub).run (Publisher.regenerator ready.project)
      (before ++ ((ready.run uses).now, .shutdown) :: during)).machine := by
    rw [Trace.run_append, Trace.machine_run, ← run, Machine.run, received, ran, ← used.project]
  refine ⟨last, commanded, ?_, kept, ?_, ?_⟩
  · rw [show last.scheduler = last.machine.scheduler from rfl, whole, ← lists]
    apply Trace.start_finished (Publisher.regenerator ready.project) free
    rw [← run, ← whole]
    exact answered
  · exact gone.pulse.trans (used.pulse.trans made.pulse)
  · have got := used.hub.trans gone.hub
    rwa [List.append_nil] at got

end

/-- However an engine was used until then, and however long the last batches take: when it has stopped, all changes
that were handed in are in batches that are over, and no document is on its way any more, be it from the last batch or
from an edit. Each revision that was ever queued was passed on, merged into a later one, dropped or purged into a
conflict, and the others went into conflicts. What is left are the conflicts that nobody has settled; that takes ids
that are told apart. -/
theorem shutdown_clears (now : Timestamp) (files : Files) (plan : Plan) (background : plan.background = true)
    (aside : plan.analyzer.Aside) (transports : List Sync.Transport) (uses : List Use) :
    let ready := (opened now files plan).attended transports
    let stopped := (ready.run uses).shutdown
    start now files plan = (plan.settings.validate.mapError Error.settings).map (fun _ => opened now files plan) ∧
      stopped.1 = .ok () ∧ stopped.2.nextDue = none ∧
      stopped.2.scheduler.Finished (max 1 plan.settings.batch.historyLimit) (uses.flatMap (Use.lists plan.root)) ∧
      ∃ calls, stopped.2.hub = ready.hub.replay calls ∧
        (calls.map (·.2)).filter (·.byHand) = uses.filterMap Use.call? ∧
        stopped.2.hub.Cleared (ready.hub.handedOver calls) ∧
        (ready.hub.ids.Distinct stopped.2.hub.ids.next →
          ∀ id, id ∈ stopped.2.hub.conflicts ↔ (∃ path, stopped.2.hub.Raised path id) ∧ ¬stopped.2.hub.Settled id) := by
  intro ready stopped
  have made : ready.Made plan.settings.batch := by
    refine ⟨rfl, Sync.Hub.attend_new plan.settings.sync transports, ?_⟩
    simp [ready, attended, opened, background]
  have aside : ready.project.analyzer.Aside := aside
  have root : ready.project.root = plan.root := rfl
  rw [← root]
  simp only [stopped]
  clear_value ready
  obtain ⟨last, commanded, finished, watched, pulse, calls, replayed, byHand⟩ := made.stops aside uses
  rw [shutdown, commanded]
  dsimp only
  have hub : last.stopBackground.hub = ready.hub.replay (calls ++ [(last.now, .flush)]) := by
    rw [stopBackground, if_pos pulse, Sync.Hub.replay_append, ← replayed]
    rfl
  rw [hub]
  refine ⟨start_eq now files plan, rfl, nextDue_stopBackground watched finished.left.2.1 finished.left.2.2, finished,
    calls ++ [(last.now, .flush)], rfl, ?_, made.hub.cleared calls last.now, made.hub.pending _⟩
  rw [List.map_append, List.filter_append, byHand]
  exact List.append_nil _

def source : Files where
  root := .directory [("p", .directory [("a.ts", .file "let x = 1;\n".toUTF8 .epoch)])]
  current := []

def chapter : Section where
  id := "s"
  files := .ofList ["a.ts"]

/-- The file of a section changes, and somebody edits the document of the section and another one. -/
def working : List Use :=
  [.register chapter, .submit [{ path := ⟨"a.ts"⟩, kind := .modified, timestamp := .epoch }],
    .edit "docs/s.md" "by hand", .edit "docs/t.md" "more"]

/-- The last batch makes the document anew that was edited, which raises a conflict; the other edit is passed on. -/
theorem working_shutdown_clears :
    let plan : Plan := { root := ⟨"/p"⟩ }
    let ready := (opened .epoch source plan).attended [⟨fun _ _ => none⟩]
    let stopped := (ready.run working).shutdown
    stopped.1 = .ok () ∧ stopped.2.nextDue = none ∧
      stopped.2.scheduler.Finished 100 [[{ path := ⟨"/p/a.ts"⟩, kind := .modified, timestamp := .epoch }]] ∧
      (∃ calls, stopped.2.hub = ready.hub.replay calls ∧ stopped.2.hub.Cleared (ready.hub.handedOver calls)) ∧
      (stopped.2.hub.events.toList.filterMap Sync.Event.broadcast?).map (·.2) = ["docs/t.md"] ∧
      stopped.2.hub.conflicts.values.map (·.path) = ["docs/s.md"] ∧
      ∀ id ∈ stopped.2.hub.conflicts, (∃ path, stopped.2.hub.Raised path id) ∧ ¬stopped.2.hub.Settled id := by
  obtain ⟨-, answered, idle, finished, calls, hub, -, cleared, pending⟩ :=
    shutdown_clears .epoch source { root := ⟨"/p"⟩ } rfl Analyzer.stats_aside [⟨fun _ _ => none⟩] working
  have lists : working.flatMap (Use.lists ⟨"/p"⟩) = [[{ path := ⟨"/p/a.ts"⟩, kind := .modified, timestamp := .epoch }]] := by
    decide +kernel
  dsimp only
  rw [lists] at finished
  refine ⟨answered, idle, finished, ⟨calls, hub, cleared⟩, by decide +kernel, by decide +kernel, fun id => ?_⟩
  exact (pending (Uuid.Supply.distinct_of_le _ (by decide +kernel)) id).mp

end Engine
end FreshDocs
