import FreshDocs.Proofs.BatchMoves

/-! When the open batch of a scheduler closes: a quiet time after the last change, or when it has been open for
the longest time that is allowed, whichever comes first. A scheduler that has settled has nothing left to do
before some later time, so the clock finds every batch closed that should be. -/

namespace FreshDocs.Batch

variable {σ : Type}

/-- The deadline is told by the first and the last time at which changes came into a batch. -/
theorem Settings.toNanos_closing {settings : Settings} {times : List Timestamp} {deadline : Timestamp}
    (closing : settings.closing? times = some deadline) :
    ∃ opened last, times.head? = some opened ∧ times.getLast? = some last ∧
      deadline.toNanos = min (last.toNanos + settings.window * 1000000)
        (opened.toNanos + max settings.maxWait settings.window * 1000000) := by
  cases times with
  | nil => cases closing
  | cons first rest =>
    cases closing
    refine ⟨first, rest.getLastD first, rfl, by rw [List.getLast?_cons, List.getLastD_eq_getLast?], ?_⟩
    rw [Timestamp.toNanos_earlier, Timestamp.addMillis, Timestamp.addMillis, Timestamp.toNanos_ofNanos,
      Timestamp.toNanos_ofNanos, Settings.longestWait]

namespace Machine

/-- If a batch has to be waited for, then until a later time. -/
def Later (now : Timestamp) (machine : Machine σ) : Prop :=
  ∀ waiting, machine.scheduler.waiting = some waiting → now < waiting.due

def Awaits (now : Timestamp) (machine : Machine σ) : Prop :=
  ∀ due, machine.nextDue = some due → now < due

section
variable (regenerator : Regenerator σ) (now : Timestamp) {machine : Machine σ}

theorem later_of_free (free : machine.scheduler.waiting = none) : machine.Later now := by
  intro waiting held
  rw [free] at held
  cases held

theorem conclude_later (batch : Running) (failure : Option String) :
    (machine.modify (·.conclude now batch failure)).Later now :=
  later_of_free now (Scheduler.waiting_proceed _ _)

private theorem suspend_later (batch : Running) (stage : Stage) {delay : Nat} (some : delay ≠ 0) :
    (machine.modify (·.suspend batch stage (now.addMillis delay))).Later now := by
  intro waiting held
  cases held
  exact Timestamp.lt_addMillis now some

private theorem pause_later (batch : Running) (rest : List Section) (some : machine.scheduler.settings.sectionDelay ≠ 0) :
    (pause now batch rest machine).Later now := by
  simp only [pause, modify]
  split
  · exact conclude_later now batch none
  · exact suspend_later now batch (.pausing rest) some

/-- Sections that need no time are made anew at once, so a batch never waits for a time that has come. -/
theorem runSections_later (batch : Running) (parts : List Section) :
    (runSections regenerator now batch parts machine).Later now := by
  induction parts generalizing machine with
  | nil => exact conclude_later now batch none
  | cons part rest ih =>
    simp only [runSections]
    split
    · generalize actSection regenerator now part _ = result
      obtain ⟨failure, acted⟩ := result
      cases failure with
      | some failure => exact conclude_later now batch (some failure)
      | none =>
        dsimp only
        split
        · exact ih
        next some => exact pause_later now batch rest some
    next some => exact suspend_later now batch _ some

private theorem runJob_later (batch : Running) (job : Job) : (runJob regenerator now batch job machine).Later now := by
  simp only [runJob]
  split
  · exact conclude_later now batch _
  next some => exact suspend_later now batch _ some

private theorem execute_later (batch : Running) : (execute regenerator now batch machine).Later now := by
  simp only [execute]
  cases batch.plan.strategy with
  | full => exact runJob_later regenerator now batch .everything
  | templates => exact runJob_later regenerator now batch _
  | sections => exact runSections_later regenerator now batch _
  | incremental => exact conclude_later now batch none

theorem apply_later (free : machine.scheduler.waiting = none) (next : After) :
    (apply regenerator now next machine).Later now := by
  simp only [apply]
  split
  · exact later_of_free now ((Scheduler.waiting_proceed _ _).trans free)
  · exact execute_later regenerator now _

private theorem resume_later (waiting : Waiting) : (resume regenerator now waiting machine).Later now := by
  obtain ⟨batch, stage, due⟩ := waiting
  cases stage with
  | pausing rest => exact runSections_later regenerator now batch rest
  | acting job rest =>
    cases job with
    | everything => exact conclude_later now batch _
    | templates paths => exact conclude_later now batch _
    | single part =>
      simp only [resume]
      generalize actSection regenerator now part machine = result
      obtain ⟨failure, acted⟩ := result
      cases failure with
      | some failure => exact conclude_later now batch (some failure)
      | none =>
        dsimp only
        split
        · exact runSections_later regenerator now batch rest
        next some => exact pause_later now batch rest some

theorem wake_later (machine : Machine σ) : (wake regenerator now machine).Later now := by
  unfold wake
  split
  next waiting held =>
    split
    · exact resume_later regenerator now waiting
    next early =>
      intro other same
      rw [held] at same
      cases same
      exact Int.not_le.mp early
  next free => exact later_of_free now free

theorem take_later (later : machine.Later now) : (take regenerator now machine).Later now := by
  unfold take
  cases machine.scheduler.mailbox with
  | nil => exact later
  | cons command rest =>
    dsimp only
    split
    next ready =>
      have free : (machine.modify ({ · with mailbox := rest })).scheduler.waiting = none := by
        simpa [modify] using (Bool.and_eq_true_iff.mp ready).2
      cases command with
      | submit changes => cases changes <;> exact later_of_free now free
      | flush ticket => exact apply_later regenerator now free _
      | shutdown ticket => exact apply_later regenerator now free _
      | hangUp => exact apply_later regenerator now free _
    next => exact later

theorem drain_later (count : Nat) (later : machine.Later now) : (drain regenerator now count machine).Later now := by
  induction count generalizing machine with
  | zero => exact later
  | succ count ih => exact ih (take_later regenerator now later)

variable {settings : Settings} {times : List Timestamp}

private theorem closeWindow_awaits (tracks : machine.scheduler.Tracks settings times) (later : machine.Later now) :
    (closeWindow regenerator now machine).Awaits now := by
  intro due
  rw [closeWindow_eq, nextDue]
  by_cases expired : machine.expired now = true
  · rw [if_pos expired]
    have free := free_of_expired now expired
    have closed := (apply_reaches regenerator now tracks free .gather).tracks.closed
    -- No batch is open any more, so only the one that is being applied can be waited for.
    cases held : (apply regenerator now .gather machine).scheduler.waiting with
    | none => simp [closed.deadline]
    | some waiting =>
      intro next
      cases next
      exact apply_later regenerator now free .gather waiting held
  · rw [if_neg expired]
    cases held : machine.scheduler.waiting with
    | none =>
      intro next
      have early : ¬due ≤ now := by simpa [Machine.expired, held, next] using expired
      exact Int.not_le.mp early
    | some waiting =>
      intro next
      cases next
      exact later waiting held

/-- The open batch is known by the times at which changes came into it. -/
def Watched (settings : Settings) (machine : Machine σ) : Prop :=
  ∃ times, machine.scheduler.Tracks settings times

theorem play_watched (watched : machine.Watched settings) (moves : List (Timestamp × Move σ)) :
    (machine.play regenerator moves).Watched settings := by
  obtain ⟨times, tracks⟩ := watched
  exact ⟨_, (play_reaches regenerator tracks moves).tracks⟩

private theorem settle_watched (watched : machine.Watched settings) : (machine.settle regenerator now).Watched settings := by
  obtain ⟨moves, played⟩ := settle_eq_play regenerator now machine
  rw [played]
  exact play_watched regenerator watched moves

theorem settle_awaits (watched : machine.Watched settings) : (machine.settle regenerator now).Awaits now := by
  have woken : (wake regenerator now machine).Watched settings :=
    play_watched regenerator watched [(now, .turn .wake)]
  have drained := play_watched regenerator woken
    (List.replicate (wake regenerator now machine).scheduler.mailbox.length (now, .turn .take))
  rw [← drain_eq_play] at drained
  obtain ⟨times, tracks⟩ := drained
  exact closeWindow_awaits regenerator now tracks (drain_later regenerator now _ (wake_later regenerator now machine))

private theorem advance_awaits (target : Timestamp) (watched : machine.Watched settings) (awaits : machine.Awaits now) :
    ((clockwork regenerator).run now target machine).Awaits target := by
  have keeps (now : Timestamp) (state : Machine σ) (watched : state.Watched settings) :
      ((clockwork regenerator).settle now state).Watched settings := settle_watched regenerator now watched
  have settles (now : Timestamp) (state : Machine σ) (watched : state.Watched settings) :
      ((clockwork regenerator).settle now state).Awaits now := settle_awaits regenerator now watched
  exact Clockwork.run_awaits keeps settles now watched awaits

/-! ### The deadline -/

omit now in
theorem new_tracks (settings : Settings) : (Scheduler.new settings).Tracks settings [] :=
  ⟨rfl, by simp [Scheduler.new], rfl, rfl, rfl, fun _ => rfl⟩

private theorem pending_closeWindow (tracks : machine.scheduler.Tracks settings times) {deadline : Timestamp}
    (set : machine.scheduler.deadline = some deadline) :
    (closeWindow regenerator now machine).scheduler.pending = [] ↔ deadline ≤ now := by
  have some : times ≠ [] := by
    intro none
    subst none
    simpa [set] using tracks.closed.deadline
  have free := tracks.free some
  have expired : machine.expired now = decide (deadline ≤ now) := by simp [Machine.expired, free, set]
  rw [closeWindow_eq, expired]
  by_cases due : deadline ≤ now
  · have closed := (apply_reaches regenerator now tracks free .gather).tracks.closed
    simp [due, closed.pending]
  · simp [due, tracks.pending, some]

omit now in
/-- A batch that is still open at a time was not opened too long before. -/
theorem Awaits.open_since {target opened : Timestamp} (awaits : machine.Awaits target) (watched : machine.Watched settings)
    (since : machine.scheduler.openedAt = some opened) :
    target.toNanos < opened.toNanos + max settings.maxWait settings.window * 1000000 := by
  obtain ⟨times, tracks⟩ := watched
  have head : times.head? = some opened := tracks.opened.symm.trans since
  have some : times ≠ [] := by
    intro none
    subst none
    cases head
  have next : machine.nextDue = settings.closing? times := by rw [nextDue, tracks.free some, tracks.deadline]
  cases closing : settings.closing? times with
  | none => exact absurd (Settings.closing?_eq_none.mp closing) some
  | some deadline =>
    have early : target.toNanos < deadline.toNanos := awaits deadline (next.trans closing)
    obtain ⟨first, last, start, -, formula⟩ := Settings.toNanos_closing closing
    rw [head] at start
    cases start
    omega

end

/-- Between two batches a scheduler has changes if and only if it has a deadline, knows when the batch was
opened, and is seen to be batching. The deadline is a quiet time after the last arrival of changes, or the
longest wait after the first one, and nothing closes the batch by itself before. No batch is open that was
opened the longest wait ago, whatever the clock shows. A batch is begun from batching only, and leaves the
scheduler idle. All this holds between any two moves, of which every run consists. -/
theorem run_windows (settings : Settings) (regenerator : Regenerator σ) (workspace : Workspace) (own : σ)
    (moves : List (Timestamp × Move σ)) :
    let fresh : Machine σ := { scheduler := .new settings, workspace, own }
    let machine := fresh.play regenerator moves
    let scheduler := machine.scheduler
    let arrivals := fresh.arrivals regenerator [] moves
    (∀ actions, ∃ more, machine.run regenerator actions = fresh.play regenerator (moves ++ more)) ∧
      (scheduler.waiting = none →
        (scheduler.pending ≠ [] ↔ scheduler.deadline.isSome) ∧ (scheduler.pending ≠ [] ↔ scheduler.openedAt.isSome) ∧
          (scheduler.pending ≠ [] ↔ scheduler.phase = .batching) ∧ (scheduler.pending = [] ↔ scheduler.phase = .idle)) ∧
      (∀ deadline, scheduler.deadline = some deadline →
        ∃ opened last, arrivals.head? = some opened ∧ arrivals.getLast? = some last ∧ scheduler.openedAt = some opened ∧
          deadline.toNanos = min (last.toNanos + settings.window * 1000000)
            (opened.toNanos + max settings.maxWait settings.window * 1000000) ∧
          ∀ now, (closeWindow regenerator now machine).scheduler.pending = [] ↔ deadline ≤ now) ∧
      (∀ now target opened,
        ((clockwork regenerator).run now target (machine.settle regenerator now)).scheduler.openedAt = some opened →
          target.toNanos < opened.toNanos + max settings.maxWait settings.window * 1000000) ∧
      Relation.ReflTransGen Link (.new settings) scheduler := by
  intro fresh machine scheduler arrivals
  have reaches : Scheduler.Reaches settings arrivals fresh.scheduler scheduler :=
    play_reaches regenerator (new_tracks settings) moves
  have tracks := reaches.tracks
  refine ⟨?_, ?_, ?_, ?_, reaches.chain⟩
  · intro actions
    obtain ⟨more, played⟩ := run_eq_play regenerator machine actions
    exact ⟨more, played.trans (play_append regenerator fresh moves more).symm⟩
  · intro free
    have shown := tracks.idle_or_batching free
    have opened := tracks.opened
    have deadline := tracks.deadline
    have pending := tracks.pending
    generalize arrivals = times at shown opened deadline pending
    cases times with
    | nil => simp [shown, opened, deadline, pending, Settings.closing?]
    | cons first rest => simp [shown, opened, deadline, pending, Settings.closing?]
  · intro deadline set
    obtain ⟨opened, last, head, final, formula⟩ := Settings.toNanos_closing (tracks.deadline.symm.trans set)
    refine ⟨opened, last, head, final, tracks.opened.trans head, formula, ?_⟩
    intro now
    exact pending_closeWindow regenerator now tracks set
  · intro now target opened since
    have watched : (machine.settle regenerator now).Watched settings := settle_watched regenerator now ⟨arrivals, tracks⟩
    have awaits := advance_awaits regenerator now target watched (settle_awaits regenerator now ⟨arrivals, tracks⟩)
    obtain ⟨further, played⟩ := advance_plays regenerator now target (machine.settle regenerator now)
    have later : ((clockwork regenerator).run now target (machine.settle regenerator now)).Watched settings :=
      played ▸ play_watched regenerator watched further
    exact awaits.open_since later since

def changing (times : List Nat) : List (Timestamp × Move Unit) :=
  times.flatMap fun (millis : Nat) =>
    let now := Timestamp.epoch.addMillis millis
    [(now, .submit [{ path := ⟨"a"⟩, kind := .modified, timestamp := now }]), (now, .turn .take)]

/-- Changes that keep coming do not keep a batch open: this one closes after a second, and is open until then. -/
theorem changing_windows :
    let fresh : Machine Unit := { scheduler := .new { maxWait := 1000 }, workspace := .ofFiles (.empty []) {} {}, own := () }
    let machine := fresh.play .idle (changing [0, 400, 800])
    let later := (clockwork .idle).run (Timestamp.epoch.addMillis 800) (Timestamp.epoch.addMillis 999)
      (machine.settle .idle (Timestamp.epoch.addMillis 800))
    (machine.scheduler.waiting = none ∧ machine.scheduler.pending ≠ [] ∧ machine.scheduler.phase = .batching) ∧
      (machine.scheduler.deadline = some (Timestamp.epoch.addMillis 1000) ∧
        ∀ now, (closeWindow .idle now machine).scheduler.pending = [] ↔ Timestamp.epoch.addMillis 1000 ≤ now) ∧
      later.scheduler.openedAt = some .epoch ∧
        (Timestamp.epoch.addMillis 999).toNanos < Timestamp.epoch.toNanos + max 1000 500 * 1000000 := by
  intro fresh machine later
  obtain ⟨-, shown, deadline, since, -⟩ := run_windows { maxWait := 1000 } Regenerator.idle (.ofFiles (.empty []) {} {}) ()
    (changing [0, 400, 800])
  have free : machine.scheduler.waiting = none := rfl
  have gathered : machine.scheduler.pending ≠ [] := by
    intro none
    cases none
  have set : machine.scheduler.deadline = some (Timestamp.epoch.addMillis 1000) := by
    decide +kernel
  have next : (machine.settle .idle (Timestamp.epoch.addMillis 800)).nextDue = some (Timestamp.epoch.addMillis 1000) := by
    decide +kernel
  have rests : later = machine.settle .idle (Timestamp.epoch.addMillis 800) := by
    simp only [later]
    rw [Clockwork.run]
    simp only [clockwork, next]
    rw [dif_neg (by decide +kernel)]
  have opened : later.scheduler.openedAt = some .epoch := by
    rw [rests]
    decide +kernel
  obtain ⟨-, -, -, -, -, -, closes⟩ := deadline _ set
  refine ⟨⟨free, gathered, ((shown free).2.2.1).mp gathered⟩, ⟨set, closes⟩, opened, ?_⟩
  exact since _ _ _ opened

end Machine

end FreshDocs.Batch
