import FreshDocs.Proofs.BatchPhases

/-! A run of a scheduler cut into its moves: one request, or one turn, each at its own time. The times at
which changes came into the open batch are kept from what the scheduler meets in each move, and the
scheduler keeps track of them from move to move. -/

namespace FreshDocs.Batch

variable {σ : Type}

/-- The least that can happen to a machine. -/
inductive Move (σ : Type) where
  | submit (changes : List Change)
  | flush
  | shutdown
  | hangUp
  | alter (workspace : Workspace) (own : σ)
  | turn (kind : Machine.Turn)

def Move.action : Move σ → Action σ
  | .submit changes => .submit changes
  | .flush => .flush
  | .shutdown => .shutdown
  | .hangUp => .hangUp
  | .alter workspace own => .alter workspace own
  | .turn kind => .turn kind

namespace Machine

def command? (machine : Machine σ) : Option Command :=
  match machine.scheduler.mailbox with
  | [] => none
  | command :: _ =>
    if machine.scheduler.accepting && machine.scheduler.waiting.isNone then some command else none

def expired (machine : Machine σ) (now : Timestamp) : Bool :=
  machine.scheduler.waiting.isNone && machine.scheduler.deadline.any (· ≤ now)

end Machine

/-- The times at which changes came into the open batch, after a command was carried out. -/
def Command.arrivals (now : Timestamp) (before : List Timestamp) : Command → List Timestamp
  | .submit [] => before
  | .submit _ => before ++ [now]
  | .flush _ | .shutdown _ | .hangUp => []

def Move.arrivals (now : Timestamp) (machine : Machine σ) (before : List Timestamp) : Move σ → List Timestamp
  | .turn .take => machine.command?.elim before (·.arrivals now before)
  | .turn .closeWindow => if machine.expired now then [] else before
  | _ => before

namespace Machine

section
variable (regenerator : Regenerator σ)

def play (machine : Machine σ) : List (Timestamp × Move σ) → Machine σ
  | [] => machine
  | (now, move) :: rest => play (move.action.apply regenerator now machine) rest

def arrivals (machine : Machine σ) (before : List Timestamp) : List (Timestamp × Move σ) → List Timestamp
  | [] => before
  | (now, move) :: rest =>
    arrivals (move.action.apply regenerator now machine) (move.arrivals now machine before) rest

/-! ### Every run is made of moves -/

theorem play_append (machine : Machine σ) (first second : List (Timestamp × Move σ)) :
    machine.play regenerator (first ++ second) = (machine.play regenerator first).play regenerator second := by
  induction first generalizing machine with
  | nil => rfl
  | cons entry rest ih => exact ih _

theorem drain_eq_play (now : Timestamp) (count : Nat) (machine : Machine σ) :
    drain regenerator now count machine = machine.play regenerator (List.replicate count (now, .turn .take)) := by
  induction count generalizing machine with
  | zero => rfl
  | succ count ih => exact ih _

theorem settle_eq_play (now : Timestamp) (machine : Machine σ) :
    ∃ moves, machine.settle regenerator now = machine.play regenerator moves := by
  let count := (machine.wake regenerator now).scheduler.mailbox.length
  refine ⟨[(now, .turn .wake)] ++ (List.replicate count (now, .turn .take) ++ [(now, .turn .closeWindow)]), ?_⟩
  rw [play_append, play_append, ← drain_eq_play]
  rfl

def Plays (before after : Machine σ) : Prop :=
  ∃ moves, after = before.play regenerator moves

theorem advance_plays (now target : Timestamp) (machine : Machine σ) :
    Plays regenerator machine ((clockwork regenerator).run now target machine) := by
  have start : Plays regenerator machine machine := ⟨[], rfl⟩
  refine Clockwork.run_keeps ?_ now start
  intro time state _ played
  obtain ⟨moves, rfl⟩ := played
  obtain ⟨further, settled⟩ := settle_eq_play regenerator time (machine.play regenerator moves)
  exact ⟨moves ++ further, settled.trans (play_append regenerator machine moves further).symm⟩

private theorem action_eq_play (now : Timestamp) (machine : Machine σ) (action : Action σ) :
    ∃ moves, action.apply regenerator now machine = machine.play regenerator moves := by
  cases action with
  | submit changes => exact ⟨[(now, .submit changes)], rfl⟩
  | flush => exact ⟨[(now, .flush)], rfl⟩
  | shutdown => exact ⟨[(now, .shutdown)], rfl⟩
  | hangUp => exact ⟨[(now, .hangUp)], rfl⟩
  | alter workspace own => exact ⟨[(now, .alter workspace own)], rfl⟩
  | turn kind => exact ⟨[(now, .turn kind)], rfl⟩
  | settle => exact settle_eq_play regenerator now machine
  | advance target => exact advance_plays regenerator now target machine

theorem run_eq_play (machine : Machine σ) (actions : List (Timestamp × Action σ)) :
    ∃ moves, machine.run regenerator actions = machine.play regenerator moves := by
  induction actions generalizing machine with
  | nil => exact ⟨[], rfl⟩
  | cons entry rest ih =>
    obtain ⟨now, action⟩ := entry
    obtain ⟨first, applied⟩ := action_eq_play regenerator now machine action
    obtain ⟨second, played⟩ := ih (action.apply regenerator now machine)
    refine ⟨first ++ second, ?_⟩
    rw [run, played, applied, play_append]

end

/-! ### Each move keeps track of the open batch -/

section
variable (regenerator : Regenerator σ) (now : Timestamp) {machine : Machine σ} {settings : Settings}
  {times : List Timestamp}

private theorem send_reaches (tracks : machine.scheduler.Tracks settings times) (command : Command) :
    Scheduler.Reaches settings times machine.scheduler (machine.receive (machine.scheduler.send command)).scheduler := by
  cases accepting : machine.scheduler.accepting with
  | false => simpa [receive, Scheduler.send, accepting] using tracks.reaches
  | true =>
    have sent := tracks.push command machine.scheduler.nextTicket
    simpa [receive, Scheduler.send, accepting] using sent

private theorem ask_reaches (tracks : machine.scheduler.Tracks settings times) (command : Ticket → Command) :
    Scheduler.Reaches settings times machine.scheduler
      (machine.receive ((machine.scheduler.ask command).map (·.2))).scheduler := by
  cases accepting : machine.scheduler.accepting with
  | false => simpa [receive, Scheduler.ask, Scheduler.send, Except.map, accepting] using tracks.reaches
  | true =>
    have sent := tracks.push (command machine.scheduler.nextTicket) (machine.scheduler.nextTicket + 1)
    simpa [receive, Scheduler.ask, Scheduler.send, Except.map, accepting] using sent

private theorem take_reaches (tracks : machine.scheduler.Tracks settings times) :
    Scheduler.Reaches settings (Move.arrivals now machine times (.turn .take)) machine.scheduler
      (take regenerator now machine).scheduler := by
  simp only [Move.arrivals, command?, take]
  cases first : machine.scheduler.mailbox with
  | nil => exact tracks.reaches
  | cons command rest =>
    dsimp only
    split
    next ready =>
      have free : machine.scheduler.waiting = none := by simpa using (Bool.and_eq_true_iff.mp ready).2
      have left : (machine.modify ({ · with mailbox := rest })).scheduler.Tracks settings times := tracks.mail rest _
      have taken (none : command.changes = []) : Link machine.scheduler { machine.scheduler with mailbox := rest } :=
        ⟨.takes command rest first none, Phase.self_mem_next _⟩
      have obeys (none : command.changes = []) (next : After) : Scheduler.Reaches settings [] machine.scheduler
          (apply regenerator now next (machine.modify ({ · with mailbox := rest }))).scheduler := by
        -- The command leaves the mailbox before anything is applied, and that is a link of its own.
        obtain ⟨closed, chain⟩ := apply_reaches regenerator now left free next
        exact ⟨closed, .head (taken none) chain⟩
      cases command with
      | submit changes =>
        cases changes with
        | nil => exact ⟨left, .single (taken rfl)⟩
        | cons change more =>
          have shown := tracks.batching_mem_next free
          exact ⟨left.gather free now (by simp), .single ⟨.gathers now _ rest first (by simp), shown⟩⟩
      | flush ticket => exact obeys rfl _
      | shutdown ticket => exact obeys rfl _
      | hangUp => exact obeys rfl _
    next => exact tracks.reaches

private theorem wake_reaches (tracks : machine.scheduler.Tracks settings times) :
    Scheduler.Reaches settings times machine.scheduler (wake regenerator now machine).scheduler := by
  simp only [wake]
  split
  next waiting held =>
    split
    · have none := tracks.alone (by simp [held])
      subst none
      exact resume_reaches regenerator now tracks held
    · exact tracks.reaches
  next => exact tracks.reaches

theorem free_of_expired (expired : machine.expired now = true) : machine.scheduler.waiting = none := by
  simpa using (Bool.and_eq_true_iff.mp expired).1

theorem closeWindow_eq (machine : Machine σ) :
    closeWindow regenerator now machine = if machine.expired now then apply regenerator now .gather machine else machine := by
  unfold closeWindow expired
  cases machine.scheduler.waiting with
  | some waiting => simp
  | none => cases machine.scheduler.deadline <;> simp

private theorem closeWindow_reaches (tracks : machine.scheduler.Tracks settings times) :
    Scheduler.Reaches settings (Move.arrivals now machine times (.turn .closeWindow)) machine.scheduler
      (closeWindow regenerator now machine).scheduler := by
  rw [closeWindow_eq, Move.arrivals]
  split
  next due => exact apply_reaches regenerator now tracks (free_of_expired now due) .gather
  next => exact tracks.reaches

private theorem move_reaches (tracks : machine.scheduler.Tracks settings times) (move : Move σ) :
    Scheduler.Reaches settings (move.arrivals now machine times) machine.scheduler
      (move.action.apply regenerator now machine).scheduler := by
  cases move with
  | submit changes => exact send_reaches tracks _
  | flush => exact ask_reaches tracks _
  | shutdown => exact ask_reaches tracks _
  | hangUp => exact send_reaches tracks _
  | alter workspace own => exact tracks.reaches
  | turn kind =>
    cases kind with
    | take => exact take_reaches regenerator now tracks
    | wake => exact wake_reaches regenerator now tracks
    | closeWindow => exact closeWindow_reaches regenerator now tracks

omit now in
theorem play_reaches (tracks : machine.scheduler.Tracks settings times) (moves : List (Timestamp × Move σ)) :
    Scheduler.Reaches settings (machine.arrivals regenerator times moves) machine.scheduler
      (machine.play regenerator moves).scheduler := by
  induction moves generalizing machine times with
  | nil => exact tracks.reaches
  | cons entry rest ih =>
    obtain ⟨now, move⟩ := entry
    have moved := move_reaches regenerator now tracks move
    have played := ih moved.tracks
    exact ⟨played.tracks, moved.chain.trans played.chain⟩

end

end Machine

end FreshDocs.Batch
