import FreshDocs.Proofs.EngineRuns

/-! How an engine waits. Once it has settled nothing is due before some later time, for each of its parts has done what
was due, so the clock never passes by a time at which something is due. That is how a request to stop the scheduler is
answered: the clock runs from one wait of the scheduler to the next, and after each there is less left to wait for. -/

namespace FreshDocs
open Batch

namespace Timestamp

variable {a b : Option Timestamp} {t : Timestamp}

private theorem eq_some_of_earlier? (first : earlier? a b = some t) : a = some t ∨ b = some t := by
  cases a with
  | none => exact .inr first
  | some a =>
    cases b with
    | none => exact .inl first
    | some b =>
      simp only [earlier?, earlier] at first
      split at first
      · exact .inr first
      · exact .inl first

private theorem earlier?_le_right (there : b = some t) : ∃ first, earlier? a b = some first ∧ first ≤ t := by
  subst there
  cases a with
  | none => exact ⟨t, rfl, Int.le_refl _⟩
  | some a =>
    refine ⟨earlier a t, rfl, ?_⟩
    change (earlier a t).toNanos ≤ t.toNanos
    rw [toNanos_earlier]
    exact Int.min_le_right _ _

end Timestamp

private theorem Sync.Pulse.fire_later (now : Timestamp) (pulse : Pulse) (hub : Hub) : now < (fire now pulse hub).1.nextDue := by
  have some (millis : Nat) : now < now.addMillis (interval millis) :=
    Timestamp.lt_addMillis now (by simp only [interval]; omega)
  have flushed : now < (flushIfDue now pulse hub).1.nextFlush := by
    unfold flushIfDue
    split
    · exact some _
    next early => exact Int.not_le.mp early
  have beaten (pulse : Pulse) (hub : Hub) (later : now < pulse.nextFlush) :
      now < (beatIfDue now pulse hub).1.nextFlush ∧ now < (beatIfDue now pulse hub).1.nextHeartbeat := by
    unfold beatIfDue
    split
    · exact ⟨later, some _⟩
    next early => exact ⟨later, Int.not_le.mp early⟩
  obtain ⟨flush, heartbeat⟩ := beaten _ (flushIfDue now pulse hub).2 flushed
  change now.toNanos < (Timestamp.earlier _ _).toNanos
  rw [Timestamp.toNanos_earlier]
  exact Int.lt_min.mpr ⟨flush, heartbeat⟩

private theorem Health.Monitor.due_sampleIfDue (monitor : Monitor) (now : Timestamp) (inputs : Inputs) :
    (monitor.sampleIfDue now inputs).due = monitor.due.map fun due =>
      if due ≤ now then now.addMillis (max monitor.settings.interval 1) else due := by
  unfold sampleIfDue
  cases held : monitor.due with
  | none => exact held
  | some due =>
    rw [Option.map_some]
    dsimp only
    split
    · rfl
    · exact held

private theorem Health.Monitor.sampleIfDue_later (monitor : Monitor) (now : Timestamp) (inputs : Inputs) {due : Timestamp}
    (next : (monitor.sampleIfDue now inputs).due = some due) : now < due := by
  rw [due_sampleIfDue] at next
  obtain ⟨old, -, rfl⟩ := Option.map_eq_some_iff.mp next
  split
  next =>
    have later := @Timestamp.lt_addMillis now (max monitor.settings.interval 1) (by omega)
    have interval : ((max monitor.settings.interval 1 : Nat) : Int) = max (monitor.settings.interval : Int) 1 := by omega
    rwa [interval] at later
  next early => exact Int.not_le.mp early

namespace Batch.Machine

variable {σ : Type}

/-- A request to stop will be answered, at the latest after so many waits. -/
structure Nears (ticket : Ticket) (waits : Nat) (machine : Machine σ) : Prop where
  pledged : machine.scheduler.Pledged ticket
  near : ticket ∈ machine.scheduler.acknowledged ∨
    (∃ waiting, machine.scheduler.waiting = some waiting) ∧ machine.load ≤ waits

/-- The answer is nearer than it was, or it is still the same that is waited for. -/
def Waits (ticket : Ticket) (waits : Nat) (waiting : Waiting) (machine : Machine σ) : Prop :=
  machine.Nears ticket waits ∨
    machine.scheduler.Pledged ticket ∧ machine.scheduler.waiting = some waiting ∧ machine.load ≤ waits + 1

end Batch.Machine

namespace Engine

/-- If there is something to do for the engine, then at a later time. -/
def Ready (engine : Engine) : Prop :=
  ∀ due, engine.nextDue = some due → engine.now < due

/-- What is announced to clients changes the hub, and how much was announced. -/
theorem settle_eq (engine : Engine) : ∃ hub relayed, engine.settle = { engine.beat.observe.schedule with hub, relayed } := by
  unfold settle relay
  split
  · exact ⟨_, _, rfl⟩
  · exact ⟨_, _, rfl⟩

section
variable {engine : Engine} {settings : Batch.Settings}

theorem Goes.watched {before after : Engine} {lists : List (List Change)} {byHand : List Sync.Hub.Call}
    (goes : Goes lists byHand before after) (watched : before.machine.Watched settings) : after.machine.Watched settings := by
  obtain ⟨actions, run, -⟩ := goes.machine
  obtain ⟨moves, played⟩ := Machine.run_eq_play (Publisher.regenerator before.project) before.machine actions
  rw [run, played]
  exact Machine.play_watched _ watched moves

theorem settle_later (watched : engine.machine.Watched settings) {due : Timestamp} (next : engine.settle.nextDue = some due) :
    engine.now < due := by
  obtain ⟨hub, relayed, settled⟩ := engine.settle_eq
  rw [settled, nextDue] at next
  rcases Timestamp.eq_some_of_earlier? next with beaten | next
  · have pulse :
        (Sync.Pulse.clockwork.settle engine.now (engine.pulse, engine.hub)).1.map Sync.Pulse.nextDue = some due := beaten
    simp only [Sync.Pulse.clockwork] at pulse
    cases there : engine.pulse with
    | none => simp [there] at pulse
    | some old =>
      simp only [there, Option.map_some, Option.some_inj] at pulse
      exact pulse ▸ Sync.Pulse.fire_later engine.now old engine.hub
  · rcases Timestamp.eq_some_of_earlier? next with observed | scheduled
    · exact Health.Monitor.sampleIfDue_later _ engine.now _ observed
    · have beaten : engine.beat.observe.machine.Watched settings := watched
      exact Machine.settle_awaits (Publisher.regenerator engine.project) engine.now beaten due scheduled

theorem settle_ready (watched : engine.machine.Watched settings) : engine.settle.Ready := by
  intro due next
  have now : engine.settle.now = engine.now := by
    obtain ⟨hub, relayed, settled⟩ := engine.settle_eq
    rw [settled]
    rfl
  rw [now]
  exact settle_later watched next

private theorem runTo_ready (aside : engine.project.analyzer.Aside) (watched : engine.machine.Watched settings)
    (ready : engine.Ready) (target : Timestamp) : (engine.runTo target).Ready := by
  have keeps (now : Timestamp) (state : Engine) (valid : state.project.analyzer.Aside ∧ state.machine.Watched settings) :
      (clockwork.settle now state).project.analyzer.Aside ∧ (clockwork.settle now state).machine.Watched settings := by
    have settled := clockwork_goes valid.1 now
    exact ⟨settled.aside valid.1, settled.watched valid.2⟩
  have settles (now : Timestamp) (state : Engine) (valid : state.project.analyzer.Aside ∧ state.machine.Watched settings) :
      ∀ due, clockwork.nextDue (clockwork.settle now state) = some due → now < due := by
    intro due next
    have watched : ({ state with now } : Engine).machine.Watched settings := valid.2
    exact settle_later watched next
  exact Clockwork.run_awaits keeps settles engine.now ⟨aside, watched⟩ ready

end

/-! ### The answer to a request to stop -/

section
variable {engine : Engine} {ticket : Ticket}

private theorem settle_answered (done : ticket ∈ engine.scheduler.acknowledged) : ticket ∈ engine.settle.scheduler.acknowledged := by
  obtain ⟨hub, relayed, settled⟩ := engine.settle_eq
  rw [settled]
  have beaten : ticket ∈ engine.beat.observe.machine.scheduler.acknowledged := done
  exact Machine.settle_turned (Publisher.regenerator engine.project) engine.now Turned.answered beaten

theorem settle_of_early {waiting : Waiting} (held : engine.scheduler.waiting = some waiting)
    (early : ¬waiting.due ≤ engine.now) : engine.settle.scheduler = engine.scheduler := by
  obtain ⟨hub, relayed, settled⟩ := engine.settle_eq
  rw [settled]
  have beaten : engine.beat.observe.machine.scheduler.waiting = some waiting := held
  exact congrArg Machine.scheduler (Machine.settle_of_early (Publisher.regenerator engine.project) engine.now beaten early)

variable (aside : engine.project.analyzer.Aside)
include aside

theorem settle_pledged (pledged : engine.scheduler.Pledged ticket) :
    engine.settle.scheduler.Pledged ticket ∧ (ticket ∈ engine.settle.scheduler.acknowledged ∨
      (∃ waiting, engine.settle.scheduler.waiting = some waiting) ∧
        ∀ waiting, engine.scheduler.waiting = some waiting →
          engine.settle.machine.load + (if waiting.due ≤ engine.now then 1 else 0) ≤ engine.machine.load) := by
  obtain ⟨hub, relayed, settled⟩ := engine.settle_eq
  rw [settled]
  have beaten : engine.beat.observe.machine.scheduler.Pledged ticket := pledged
  exact ⟨Machine.settle_turned (Publisher.regenerator engine.project) engine.now Turned.pledged beaten,
    Machine.settle_pledged _ engine.now (Publisher.regenerator_steady aside) beaten⟩

end

section
variable {engine : Engine} {ticket : Ticket} {waits : Nat} (aside : engine.project.analyzer.Aside)
include aside

private theorem settle_waits {waiting : Waiting} (valid : engine.machine.Waits ticket waits waiting) :
    engine.settle.machine.Waits ticket waits waiting := by
  rcases valid with ⟨pledged, near⟩ | ⟨pledged, held, load⟩
  · obtain ⟨still, done | ⟨there, less⟩⟩ := settle_pledged aside pledged
    · exact .inl ⟨still, .inl done⟩
    · rcases near with done | ⟨⟨other, held⟩, load⟩
      · exact .inl ⟨still, .inl (settle_answered done)⟩
      · have spent := less other held
        exact .inl ⟨still, .inr ⟨there, by omega⟩⟩
  · obtain ⟨still, done | ⟨there, less⟩⟩ := settle_pledged aside pledged
    · exact .inl ⟨still, .inl done⟩
    -- Either the wait is over, which spends it, or the scheduler has done nothing.
    · have spent := less waiting held
      by_cases come : waiting.due ≤ engine.now
      · rw [if_pos come] at spent
        exact .inl ⟨still, .inr ⟨there, by omega⟩⟩
      · refine .inr ⟨still, ?_, by omega⟩
        exact (congrArg Scheduler.waiting (settle_of_early held come)).trans held

variable {settings : Batch.Settings}

/-- When the clock has run to the end of a wait, the answer is nearer. -/
theorem runTo_nears (watched : engine.machine.Watched settings) (ready : engine.Ready) {waiting : Waiting}
    (held : engine.scheduler.waiting = some waiting) (pledged : engine.scheduler.Pledged ticket)
    (load : engine.machine.load ≤ waits + 1) : (engine.runTo waiting.due).machine.Nears ticket waits := by
  have later := runTo_ready aside watched ready waiting.due
  have run : (clockwork.run engine.now waiting.due engine).project.analyzer.Aside ∧
      (clockwork.run engine.now waiting.due engine).machine.Waits ticket waits waiting := by
    refine @Clockwork.run_keeps Engine clockwork
      (fun state => state.project.analyzer.Aside ∧ state.machine.Waits ticket waits waiting) waiting.due ?_
      engine.now engine ⟨aside, .inr ⟨pledged, held, load⟩⟩
    rintro now state - ⟨aside, valid⟩
    have still : ({ state with now } : Engine).machine.Waits ticket waits waiting := valid
    exact ⟨(clockwork_goes aside now).aside aside, @settle_waits { state with now } ticket waits aside waiting still⟩
  rcases run.2 with nears | ⟨-, same, -⟩
  · exact ⟨nears.pledged, nears.near⟩
  -- The clock has passed the end of the wait, so the scheduler cannot still be waiting for it.
  · have next : Machine.nextDue (engine.runTo waiting.due).machine = some waiting.due := by
      simp only [Machine.nextDue]
      have there : (engine.runTo waiting.due).machine.scheduler.waiting = some waiting := same
      rw [there]
    obtain ⟨inner, first, less⟩ := Timestamp.earlier?_le_right (a := (engine.runTo waiting.due).monitor.due) next
    obtain ⟨due, outer, least⟩ :=
      Timestamp.earlier?_le_right (a := (engine.runTo waiting.due).pulse.map Sync.Pulse.nextDue) first
    have passed : waiting.due < due := later due outer
    exact absurd (Int.le_trans least less) (Int.not_le.mpr passed)

theorem await_answers (watched : engine.machine.Watched settings) (ready : engine.Ready)
    (nears : engine.machine.Nears ticket waits) : ticket ∈ (await ticket waits engine).scheduler.acknowledged := by
  induction waits generalizing engine with
  | zero =>
    rcases nears.near with done | ⟨⟨waiting, held⟩, load⟩
    · exact done
    · have waits : waiting.stage.waits ≠ 0 := by cases waiting.stage <;> simp [Stage.waits]
      have there : engine.machine.scheduler.waiting = some waiting := held
      rw [Machine.load, there, Option.map_some, Option.getD_some] at load
      omega
  | succ waits ih =>
    unfold await
    split
    next done => simpa [Machine.isAcknowledged, machine] using done
    next unanswered =>
      rcases nears.near with done | ⟨⟨waiting, held⟩, load⟩
      · exact absurd (by simpa [Machine.isAcknowledged, machine] using done) unanswered
      · have next : Machine.nextDue engine.machine = some waiting.due := by
          have there : engine.machine.scheduler.waiting = some waiting := held
          rw [Machine.nextDue, there]
        rw [next]
        dsimp only
        have gone := runTo_goes aside waiting.due
        exact ih (gone.aside aside) (gone.watched watched) (runTo_ready aside watched ready waiting.due)
          (runTo_nears aside watched ready held nears.pledged load)

end

end Engine
end FreshDocs
