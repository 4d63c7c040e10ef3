import FreshDocs.Proofs.BatchAnswers

/-! What holds of every turn holds of every run, since a run is nothing but turns and requests.
Requests may come in at any moment: the scheduler has no part in when they do. -/

namespace FreshDocs.Batch

variable {σ : Type}

theorem Ran.nextTicket {batch : Running} {before after : Scheduler} {outcomes : List Outcome}
    (ran : Ran batch before outcomes after) : after.nextTicket = before.nextTicket := by
  cases ran with
  | waits => rfl
  | ends => exact Scheduler.nextTicket_proceed _ _

theorem Applied.nextTicket {next : After} {before after : Scheduler} {outcomes : List Outcome}
    (applied : Applied next before outcomes after) : after.nextTicket = before.nextTicket := by
  cases applied with
  | nothing => exact Scheduler.nextTicket_proceed _ _
  | batch now plan outcomes after gathered covers ran => exact ran.nextTicket

/-- Tickets are given out to requests only. -/
theorem Turned.nextTicket {before after : Scheduler} {outcomes : List Outcome}
    (turned : Turned before outcomes after) : after.nextTicket = before.nextTicket := by
  cases turned with
  | rests | skips | gathers => rfl
  | obeys command rest next outcomes after ready first follows applied => exact applied.nextTicket
  | closes outcomes after free applied => exact applied.nextTicket
  | resumes waiting outcomes after held ran => exact ran.nextTicket

namespace Trace

def handed (trace : Trace σ) : List Change :=
  trace.executed ++ (trace.machine.scheduler.pending ++ trace.machine.scheduler.queued)

def Told (limit : Nat) (trace : Trace σ) : Prop :=
  Batch.Told limit trace.finished trace.current trace.machine.scheduler

structure Follows (before after : Trace σ) : Prop where
  aligned : after.Aligned
  handed : after.handed = before.handed
  told : ∀ limit > 0, before.Told limit → after.Told limit
  ending : after.machine.scheduler.ending = before.machine.scheduler.ending
  nextTicket : after.machine.scheduler.nextTicket = before.machine.scheduler.nextTicket
  kept : ∀ ticket promised, Kept ticket promised before → Kept ticket promised after

theorem Aligned.follows {trace : Trace σ} (aligned : trace.Aligned) : Follows trace trace :=
  ⟨aligned, rfl, fun _ _ told => told, rfl, rfl, fun _ _ kept => kept⟩

theorem Follows.trans {first second third : Trace σ} (one : Follows first second) (two : Follows second third) :
    Follows first third where
  aligned := two.aligned
  handed := two.handed.trans one.handed
  told limit positive told := two.told limit positive (one.told limit positive told)
  ending := two.ending.trans one.ending
  nextTicket := two.nextTicket.trans one.nextTicket
  kept ticket promised kept := two.kept ticket promised (one.kept ticket promised kept)

section
variable (regenerator : Regenerator σ) (now : Timestamp) {trace : Trace σ}

theorem turn_follows (aligned : trace.Aligned) (kind : Machine.Turn) :
    Follows trace (trace.turn regenerator now kind) := by
  have turned := Machine.turn_turned regenerator now trace.machine kind
  obtain ⟨after, conserved⟩ := turned.conserves aligned
  refine ⟨after, ?_, ?_, ?_, ?_, fun ticket promised kept => turned.kept aligned kept⟩
  · rw [handed, machine_turn]
    exact conserved
  · intro limit positive told
    rw [Told, machine_turn]
    exact turned.told positive aligned told
  · rw [machine_turn]
    exact turned.ending
  · rw [machine_turn]
    exact turned.nextTicket

private theorem drain_follows (aligned : trace.Aligned) (count : Nat) :
    Follows trace (drain regenerator now count trace) := by
  induction count generalizing trace with
  | zero => exact aligned.follows
  | succ count ih =>
    have taken := turn_follows regenerator now aligned .take
    exact taken.trans (ih taken.aligned)

private theorem settle_follows (aligned : trace.Aligned) : Follows trace (trace.settle regenerator now) := by
  have woken := turn_follows regenerator now aligned .wake
  have drained := drain_follows regenerator now woken.aligned
    (trace.turn regenerator now .wake).machine.scheduler.mailbox.length
  exact (woken.trans drained).trans (turn_follows regenerator now drained.aligned .closeWindow)

private theorem advance_follows (aligned : trace.Aligned) (target : Timestamp) :
    Follows trace ((clockwork regenerator).run now target trace) := by
  apply Clockwork.run_keeps ?_ now aligned.follows
  intro now state _ follows
  exact follows.trans (settle_follows regenerator now follows.aligned)

end

/-! ### Requests -/

/-- Tickets that have not been given out promise nothing. -/
def Fresh (trace : Trace σ) : Prop :=
  ∀ ticket, trace.machine.scheduler.nextTicket ≤ ticket → ∀ promised, Kept ticket promised trace

/-- One trace comes from the other by actions that hand in changes, and that may tell the
scheduler to stop after them. -/
structure Goes (changes : List Change) (ends : Bool) (before after : Trace σ) : Prop where
  aligned : after.Aligned
  handed : after.handed = before.handed ++ if before.machine.scheduler.ending then [] else changes
  told : ∀ limit > 0, before.Told limit → after.Told limit
  ending : after.machine.scheduler.ending = (before.machine.scheduler.ending || ends)
  nextTicket : before.machine.scheduler.nextTicket ≤ after.machine.scheduler.nextTicket
  fresh : before.Fresh → after.Fresh
  kept : ∀ ticket < before.machine.scheduler.nextTicket, ∀ promised,
    Kept ticket promised before → Kept ticket promised after

theorem Follows.goes {before after : Trace σ} (follows : Follows before after) :
    Goes [] false before after where
  aligned := follows.aligned
  handed := by rw [follows.handed, ite_self, List.append_nil]
  told := follows.told
  ending := by rw [follows.ending, Bool.or_false]
  nextTicket := Nat.le_of_eq follows.nextTicket.symm
  fresh fresh ticket unknown promised := by
    rw [follows.nextTicket] at unknown
    exact follows.kept ticket promised (fresh ticket unknown promised)
  kept ticket _ := follows.kept ticket

theorem Goes.trans {first second third : Trace σ} {some more : List Change} {ends later : Bool}
    (one : Goes some ends first second) (two : Goes more later second third) :
    Goes (some ++ if ends then [] else more) (ends || later) first third where
  aligned := two.aligned
  handed := by
    rw [two.handed, one.handed, one.ending, List.append_assoc]
    cases first.machine.scheduler.ending <;> rfl
  told limit positive told := two.told limit positive (one.told limit positive told)
  ending := by rw [two.ending, one.ending, Bool.or_assoc]
  nextTicket := Nat.le_trans one.nextTicket two.nextTicket
  fresh fresh := two.fresh (one.fresh fresh)
  kept ticket known promised kept :=
    two.kept ticket (Nat.lt_of_lt_of_le known one.nextTicket) promised (one.kept ticket known promised kept)

def push (trace : Trace σ) (command : Command) (nextTicket : Ticket) : Trace σ :=
  { trace with
    machine := { trace.machine with
      scheduler := { trace.machine.scheduler with
        mailbox := trace.machine.scheduler.mailbox ++ [command]
        nextTicket } } }

section
variable {trace : Trace σ}

/-- A new command keeps what was promised, and its own promise if that has been handed in. -/
theorem push_kept {ticket : Ticket} {promised : List Change} (kept : Kept ticket promised trace)
    (command : Command) (nextTicket : Ticket)
    (new : command.ticket? = some ticket → trace.machine.scheduler.ending = false → promised <+: trace.handed) :
    Kept ticket promised (trace.push command nextTicket) := by
  refine Kept.quiet kept rfl rfl ?_
  intro goes front reached
  rcases Command.reached_append reached with older | ⟨rfl, free, named⟩
  · exact kept.queued goes front older
  · have goes : trace.machine.scheduler.stopping = false := goes
    have promise := new named (by simp [Scheduler.ending, goes, free])
    simpa [handed, Scheduler.queued, goes, Command.ahead_of_free free] using promise

private theorem push_goes (aligned : trace.Aligned) (command : Command) {nextTicket : Ticket}
    (accepting : trace.machine.scheduler.accepting = true)
    (next : trace.machine.scheduler.nextTicket ≤ nextTicket)
    (tickets : ∀ ticket, command.ticket? = some ticket →
      ticket = trace.machine.scheduler.nextTicket ∧ ticket < nextTicket) :
    Goes command.changes command.ends trace (trace.push command nextTicket) where
  aligned := aligned
  handed := by
    have more := Command.ahead_append trace.machine.scheduler.mailbox command
    cases stops : trace.machine.scheduler.stopping <;>
      simp_all [push, handed, executed, Scheduler.queued, Scheduler.ending, Scheduler.stopping]
  told _ _ told := told
  ending := by simp [push, Scheduler.ending, Scheduler.stopping, Bool.or_assoc]
  nextTicket := next
  fresh fresh ticket unknown promised := by
    apply push_kept (fresh ticket (Nat.le_trans next unknown) promised)
    intro named
    exact absurd (tickets ticket named).2 (Nat.not_lt.mpr unknown)
  kept ticket known promised kept := by
    apply push_kept kept
    intro named
    exact absurd (tickets ticket named).1 (Nat.ne_of_lt known)

private theorem refused_goes (aligned : trace.Aligned) (changes : List Change) (ends : Bool)
    (closed : trace.machine.scheduler.accepting = false) : Goes changes ends trace trace where
  aligned := aligned
  handed := by simp [Scheduler.ending, Scheduler.stopping, closed]
  told _ _ told := told
  ending := by simp [Scheduler.ending, Scheduler.stopping, closed]
  nextTicket := Nat.le_refl _
  fresh fresh := fresh
  kept _ _ _ kept := kept

end

end Trace

namespace Action

def changes : Action σ → List Change
  | .submit changes => changes
  | _ => []

def ends : Action σ → Bool
  | .shutdown | .hangUp => true
  | _ => false

def ticket? (scheduler : Scheduler) : Action σ → Option Ticket
  | .flush => (scheduler.ask .flush).toOption.map (·.1)
  | .shutdown => (scheduler.ask .shutdown).toOption.map (·.1)
  | _ => none

end Action

def early (actions : List (Timestamp × Action σ)) : List Change :=
  (actions.takeWhile (!·.2.ends)).flatMap (·.2.changes)

def handedIn (actions : List (Timestamp × Action σ)) : List Change :=
  actions.flatMap (·.2.changes)

private theorem early_of_free {actions : List (Timestamp × Action σ)} (free : actions.any (·.2.ends) = false) :
    early actions = handedIn actions := by
  induction actions with
  | nil => rfl
  | cons entry rest ih =>
    rw [List.any_cons, Bool.or_eq_false_iff] at free
    have later := ih free.2
    simp only [early, handedIn] at later ⊢
    simp [free.1, later]

private theorem early_cons (now : Timestamp) (action : Action σ) (rest : List (Timestamp × Action σ)) :
    early ((now, action) :: rest) = action.changes ++ if action.ends then [] else early rest := by
  cases action <;> simp [early, Action.ends, Action.changes]

namespace Trace

section
variable (regenerator : Regenerator σ) (now : Timestamp) {trace : Trace σ}

theorem step_submit (changes : List Change) :
    trace.step regenerator now (.submit changes) =
      if trace.machine.scheduler.accepting then
        trace.push (.submit changes) trace.machine.scheduler.nextTicket
      else trace := by
  cases accepting : trace.machine.scheduler.accepting <;>
    simp [step, Action.apply, Machine.receive, Scheduler.send, accepting, push]

theorem step_hangUp :
    trace.step regenerator now .hangUp =
      if trace.machine.scheduler.accepting then trace.push .hangUp trace.machine.scheduler.nextTicket
      else trace := by
  cases accepting : trace.machine.scheduler.accepting <;>
    simp [step, Action.apply, Machine.receive, Scheduler.send, accepting, push]

theorem step_flush :
    trace.step regenerator now .flush =
      if trace.machine.scheduler.accepting then
        trace.push (.flush trace.machine.scheduler.nextTicket) (trace.machine.scheduler.nextTicket + 1)
      else trace := by
  cases accepting : trace.machine.scheduler.accepting <;>
    simp [step, Action.apply, Machine.receive, Scheduler.ask, Scheduler.send, Except.map, accepting, push]

theorem step_shutdown :
    trace.step regenerator now .shutdown =
      if trace.machine.scheduler.accepting then
        trace.push (.shutdown trace.machine.scheduler.nextTicket) (trace.machine.scheduler.nextTicket + 1)
      else trace := by
  cases accepting : trace.machine.scheduler.accepting <;>
    simp [step, Action.apply, Machine.receive, Scheduler.ask, Scheduler.send, Except.map, accepting, push]

theorem request_goes (aligned : trace.Aligned) (command : Command) {nextTicket : Ticket}
    (next : trace.machine.scheduler.nextTicket ≤ nextTicket)
    (tickets : ∀ ticket, command.ticket? = some ticket →
      ticket = trace.machine.scheduler.nextTicket ∧ ticket < nextTicket) :
    Goes command.changes command.ends trace
      (if trace.machine.scheduler.accepting then trace.push command nextTicket else trace) := by
  cases accepting : trace.machine.scheduler.accepting with
  | true => exact push_goes aligned command accepting next tickets
  | false => exact refused_goes aligned _ _ accepting

theorem step_goes (aligned : trace.Aligned) (action : Action σ) :
    Goes action.changes action.ends trace (trace.step regenerator now action) := by
  cases action with
  | submit changes =>
    rw [step_submit]
    exact request_goes aligned (.submit changes) (Nat.le_refl _) (fun _ named => by cases named)
  | flush =>
    rw [step_flush]
    apply request_goes aligned (.flush _) (Nat.le_succ _)
    rintro ticket ⟨⟩
    exact ⟨rfl, Nat.lt_succ_self _⟩
  | shutdown =>
    rw [step_shutdown]
    apply request_goes aligned (.shutdown _) (Nat.le_succ _)
    rintro ticket ⟨⟩
    exact ⟨rfl, Nat.lt_succ_self _⟩
  | hangUp =>
    rw [step_hangUp]
    exact request_goes aligned .hangUp (Nat.le_refl _) (fun _ named => by cases named)
  | alter workspace own =>
    have same : Follows trace (trace.step regenerator now (.alter workspace own)) :=
      ⟨aligned, rfl, fun _ _ told => told, rfl, rfl, fun _ _ kept => ⟨kept.queued, kept.underway, kept.answered⟩⟩
    exact same.goes
  | turn kind => exact (turn_follows regenerator now aligned kind).goes
  | settle => exact (settle_follows regenerator now aligned).goes
  | advance target => exact (advance_follows regenerator now aligned target).goes

/-- A request that is taken may promise all that has been handed in so far. -/
theorem step_promises {action : Action σ} {ticket : Ticket} {promised : List Change} (fresh : trace.Fresh)
    (asked : action.ticket? trace.machine.scheduler = some ticket)
    (ready : trace.machine.scheduler.ending = false → promised <+: trace.handed) :
    Kept ticket promised (trace.step regenerator now action) ∧
      ticket < (trace.step regenerator now action).machine.scheduler.nextTicket := by
  cases accepting : trace.machine.scheduler.accepting with
  | false => cases action <;> simp [Action.ticket?, Scheduler.ask, Scheduler.send, accepting, Except.map, Except.toOption] at asked
  | true =>
    cases action with
    | flush =>
      have same : trace.machine.scheduler.nextTicket = ticket := by
        simpa [Action.ticket?, Scheduler.ask, Scheduler.send, accepting, Except.map, Except.toOption] using asked
      subst same
      rw [step_flush, if_pos accepting]
      exact ⟨push_kept (fresh _ (Nat.le_refl _) promised) _ _ (fun _ => ready), Nat.lt_succ_self _⟩
    | shutdown =>
      have same : trace.machine.scheduler.nextTicket = ticket := by
        simpa [Action.ticket?, Scheduler.ask, Scheduler.send, accepting, Except.map, Except.toOption] using asked
      subst same
      rw [step_shutdown, if_pos accepting]
      exact ⟨push_kept (fresh _ (Nat.le_refl _) promised) _ _ (fun _ => ready), Nat.lt_succ_self _⟩
    | submit | hangUp | alter | turn | settle | advance => cases asked

theorem run_goes (aligned : trace.Aligned) (actions : List (Timestamp × Action σ)) :
    Goes (early actions) (actions.any (·.2.ends)) trace (trace.run regenerator actions) := by
  induction actions generalizing trace with
  | nil => exact aligned.follows.goes
  | cons entry rest ih =>
    obtain ⟨now, action⟩ := entry
    have first := step_goes regenerator now aligned action
    rw [early_cons, List.any_cons]
    exact first.trans (ih first.aligned)

theorem run_append (before after : List (Timestamp × Action σ)) :
    trace.run regenerator (before ++ after) = (trace.run regenerator before).run regenerator after := by
  induction before generalizing trace with
  | nil => rfl
  | cons entry rest ih => exact ih

end

def start (settings : Settings) (workspace : Workspace) (own : σ) : Trace σ :=
  { machine := { scheduler := .new settings, workspace, own } }

theorem start_told (settings : Settings) (workspace : Workspace) (own : σ) :
    (start settings workspace own).Told (max 1 settings.historyLimit) :=
  ⟨[], [], [], .none, .none, rfl, by simp [start, Scheduler.new, History.empty]⟩

theorem start_fresh (settings : Settings) (workspace : Workspace) (own : σ) :
    (start settings workspace own).Fresh := by
  intro ticket _ promised
  refine ⟨?_, ?_, ?_⟩
  · rintro - front ⟨command, rest, shape, -⟩
    simp [start, Scheduler.new] at shape
  · intro waiting held
    cases held
  · intro answered
    cases answered

end Trace

/-- Wherever a scheduler is stopped, whoever asks for what and when, and however the jobs of the
regenerator end: every change that was handed in before anybody asked the scheduler to stop is in
exactly one place, and all are in the order in which they were handed in. Each batch was reported
and recorded once, truthfully, and before the next one was begun. When a request is answered, all
that was handed in before it has been applied. -/
theorem run_accounts (settings : Settings) (regenerator : Regenerator σ) (workspace : Workspace) (own : σ)
    (actions : List (Timestamp × Action σ)) :
    let trace := (Trace.start settings workspace own).run regenerator actions
    let scheduler := trace.machine.scheduler
    trace.machine = (Trace.start settings workspace own).machine.run regenerator actions ∧
      trace.executed ++ (scheduler.pending ++ scheduler.queued) = early actions ∧
      trace.Told (max 1 settings.historyLimit) ∧
      ∀ before now request after ticket, actions = before ++ (now, request) :: after →
        request.ticket? ((Trace.start settings workspace own).machine.run regenerator before).scheduler = some ticket →
        ticket ∈ scheduler.acknowledged → handedIn before <+: trace.finished.flatMap (·.changes) := by
  have aligned : (Trace.start settings workspace own).Aligned := rfl
  have fresh := Trace.start_fresh settings workspace own
  have goes := Trace.run_goes regenerator aligned actions
  refine ⟨Trace.machine_run regenerator _ actions, goes.handed, ?_, ?_⟩
  · exact goes.told _ (by omega) (Trace.start_told settings workspace own)
  · rintro before now request after ticket rfl asked answered
    have earlier := Trace.run_goes regenerator aligned before
    rw [← Trace.machine_run] at asked
    have ready : ((Trace.start settings workspace own).run regenerator before).machine.scheduler.ending = false →
        handedIn before <+: ((Trace.start settings workspace own).run regenerator before).handed := by
      intro going
      have free := earlier.ending.symm.trans going
      rw [earlier.handed, ← early_of_free (Bool.or_eq_false_iff.mp free).2]
      exact List.prefix_refl _
    obtain ⟨kept, known⟩ := Trace.step_promises regenerator now (earlier.fresh fresh) asked ready
    have stepped := Trace.step_goes regenerator now earlier.aligned request
    rw [Trace.run_append, Trace.run] at answered ⊢
    exact ((Trace.run_goes regenerator stepped.aligned after).kept ticket known _ kept).answered answered

end FreshDocs.Batch
