import FreshDocs.Proofs.BatchWindows

/-! A scheduler under a clock that keeps time. The clock only ever stops at times for which something is due, so no
batch waits longer than it has to: each wait ends exactly when it is due. -/

namespace FreshDocs.Batch

variable {σ : Type}

/-- If the move ends a wait, then not later than when it was due. -/
def Move.InTime (now : Timestamp) (machine : Machine σ) (move : Move σ) : Prop :=
  ∀ waiting, machine.scheduler.waiting = some waiting → move = .turn .wake → waiting.due ≤ now → now ≤ waiting.due

theorem Move.inTime_of_ne {now : Timestamp} {machine : Machine σ} {move : Move σ} (other : move ≠ .turn .wake) :
    move.InTime now machine :=
  fun _ _ wakes => absurd wakes other

theorem Move.inTime_of_due {now : Timestamp} {machine : Machine σ} (move : Move σ)
    (due : machine.scheduler.waiting.map (·.due) = some now) : move.InTime now machine := by
  intro waiting held _ _
  rw [held] at due
  cases due
  exact Int.le_refl _

/-- Actions follow a clock: each happens at its time, and time passes only while the clock runs. -/
def Timely : Timestamp → List (Timestamp × Action σ) → Prop
  | _, [] => True
  | now, (time, .advance target) :: rest => time = now ∧ now ≤ target ∧ Timely target rest
  | now, (time, _) :: rest => time = now ∧ Timely now rest

namespace Machine

def Punctual (regenerator : Regenerator σ) (machine : Machine σ) : List (Timestamp × Move σ) → Prop
  | [] => True
  | (now, move) :: rest =>
    move.InTime now machine ∧ Punctual regenerator (move.action.apply regenerator now machine) rest

/-- The second machine comes from the first by moves that end all waits when they are due. -/
def PlaysInTime (regenerator : Regenerator σ) (before after : Machine σ) : Prop :=
  ∃ moves, after = before.play regenerator moves ∧ before.Punctual regenerator moves

section
variable {regenerator : Regenerator σ} {now : Timestamp} {machine : Machine σ}

theorem Punctual.append {first second : List (Timestamp × Move σ)} (one : machine.Punctual regenerator first)
    (two : (machine.play regenerator first).Punctual regenerator second) :
    machine.Punctual regenerator (first ++ second) := by
  induction first generalizing machine with
  | nil => exact two
  | cons entry rest ih => exact ⟨one.1, ih one.2 two⟩

theorem PlaysInTime.refl : PlaysInTime regenerator machine machine :=
  ⟨[], rfl, trivial⟩

theorem PlaysInTime.trans {second third : Machine σ} (one : PlaysInTime regenerator machine second)
    (two : PlaysInTime regenerator second third) : PlaysInTime regenerator machine third := by
  obtain ⟨moves, rfl, punctual⟩ := one
  obtain ⟨more, rfl, others⟩ := two
  exact ⟨moves ++ more, (play_append regenerator machine moves more).symm, punctual.append others⟩

theorem move_playsInTime (move : Move σ) (intime : move.InTime now machine) :
    PlaysInTime regenerator machine (move.action.apply regenerator now machine) :=
  ⟨[(now, move)], rfl, intime, trivial⟩

private theorem drain_playsInTime (count : Nat) : PlaysInTime regenerator machine (drain regenerator now count machine) := by
  induction count generalizing machine with
  | zero => exact .refl
  | succ count ih =>
    have taken : PlaysInTime regenerator machine (take regenerator now machine) := move_playsInTime (.turn .take) (Move.inTime_of_ne nofun)
    exact taken.trans ih

private theorem settle_playsInTime (intime : (Move.turn .wake).InTime now machine) :
    PlaysInTime regenerator machine (machine.settle regenerator now) := by
  have woken : PlaysInTime regenerator machine (wake regenerator now machine) := move_playsInTime (.turn .wake) intime
  have closed (machine : Machine σ) : PlaysInTime regenerator machine (closeWindow regenerator now machine) :=
    move_playsInTime (.turn .closeWindow) (Move.inTime_of_ne nofun)
  exact (woken.trans (drain_playsInTime _)).trans (closed _)

/-! ### Waiting for later times -/

private theorem closeWindow_later (later : machine.Later now) : (closeWindow regenerator now machine).Later now := by
  rw [closeWindow_eq]
  split
  next expired => exact apply_later regenerator now (free_of_expired now expired) .gather
  next => exact later

theorem settle_later (machine : Machine σ) : (machine.settle regenerator now).Later now :=
  closeWindow_later (drain_later regenerator now _ (wake_later regenerator now machine))

private theorem Later.inTime (later : machine.Later now) (move : Move σ) : move.InTime now machine :=
  fun waiting held _ due => absurd due (Int.not_le.mpr (later waiting held))

private theorem send_later (later : machine.Later now) (command : Command) :
    (machine.receive (machine.scheduler.send command)).Later now := by
  rw [Scheduler.send]
  split
  · exact later
  · exact later

private theorem ask_later (later : machine.Later now) (command : Ticket → Command) :
    (machine.receive ((machine.scheduler.ask command).map (·.2))).Later now := by
  rw [Scheduler.ask, Scheduler.send]
  split
  · exact later
  · exact later

private theorem move_later (later : machine.Later now) (move : Move σ) :
    (move.action.apply regenerator now machine).Later now := by
  cases move with
  | submit changes => exact send_later later _
  | flush => exact ask_later later _
  | shutdown => exact ask_later later _
  | hangUp => exact send_later later _
  | alter workspace own => exact later
  | turn kind =>
    cases kind with
    | take => exact take_later regenerator now later
    | wake => exact wake_later regenerator now machine
    | closeWindow => exact closeWindow_later later

private theorem later_of_nextDue {target : Timestamp} (passed : ∀ due, machine.nextDue = some due → target < due) :
    machine.Later target := by
  intro waiting held
  exact passed waiting.due (by rw [nextDue, held])

/-- The clock stops for each wait when it is due. -/
theorem advance_playsInTime (target : Timestamp) (later : machine.Later now) (forward : now ≤ target) :
    PlaysInTime regenerator machine ((clockwork regenerator).run now target machine) ∧
      ((clockwork regenerator).run now target machine).Later target := by
  fun_induction (clockwork regenerator).run now target machine with
  | case1 now machine idle =>
    have idle : machine.nextDue = none := idle
    exact ⟨.refl, later_of_nextDue fun due next => by rw [idle] at next; cases next⟩
  | case2 now machine due next ready _ ih =>
    have next : machine.nextDue = some due := next
    have intime : (Move.turn .wake).InTime due machine := by
      intro waiting held _ _
      rw [nextDue, held] at next
      cases next
      exact Int.le_refl _
    obtain ⟨plays, after⟩ := ih (settle_later machine) ready.2
    exact ⟨(settle_playsInTime intime).trans plays, after⟩
  | case3 now machine due next late =>
    refine ⟨.refl, fun waiting held => ?_⟩
    have next : machine.nextDue = some due := next
    rw [nextDue, held] at next
    cases next
    exact Int.not_le.mp fun early => late ⟨later waiting held, early⟩

/-- Under a clock that keeps time, a run is made of moves that end all waits when they are due. -/
theorem run_playsInTime (later : machine.Later now) {actions : List (Timestamp × Action σ)} (timely : Timely now actions) :
    PlaysInTime regenerator machine (machine.run regenerator actions) := by
  induction actions generalizing now machine with
  | nil => exact .refl
  | cons entry rest ih =>
    obtain ⟨time, action⟩ := entry
    have moved (move : Move σ) (same : time = now) (others : Timely now rest) :
        PlaysInTime regenerator machine ((move.action.apply regenerator time machine).run regenerator rest) := by
      subst same
      exact (move_playsInTime move (later.inTime move)).trans (ih (move_later later move) others)
    cases action with
    | submit changes => exact moved (.submit changes) timely.1 timely.2
    | flush => exact moved .flush timely.1 timely.2
    | shutdown => exact moved .shutdown timely.1 timely.2
    | hangUp => exact moved .hangUp timely.1 timely.2
    | alter workspace own => exact moved (.alter workspace own) timely.1 timely.2
    | turn kind => exact moved (.turn kind) timely.1 timely.2
    | settle =>
      obtain ⟨rfl, others⟩ := timely
      exact (settle_playsInTime (later.inTime _)).trans (ih (settle_later machine) others)
    | advance target =>
      obtain ⟨rfl, forward, others⟩ := timely
      obtain ⟨plays, after⟩ := advance_playsInTime target later forward
      exact plays.trans (ih after others)

end

end Machine

end FreshDocs.Batch
