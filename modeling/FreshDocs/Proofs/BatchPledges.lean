import FreshDocs.Proofs.BatchWaits

/-! A request to stop does not get lost. It waits in the mailbox behind commands that do not stop the scheduler, then
for the last batch, and then it is answered; and each time that the scheduler has settled, either it is answered or
there is a batch to be waited for. -/

namespace FreshDocs.Batch
open Relation

variable {σ : Type}

namespace Scheduler

/-- A request to stop, on its way to the answer. -/
inductive Pledged (ticket : Ticket) (scheduler : Scheduler) : Prop where
  | queued (going : scheduler.accepting = true) (front : List Command)
      (shape : scheduler.mailbox = front ++ [.shutdown ticket]) (free : ∀ command ∈ front, command.ends = false)
      (current : ∀ waiting, scheduler.waiting = some waiting → waiting.batch.after.ends = false)
  | underway (going : scheduler.accepting = true) (waiting : Waiting) (held : scheduler.waiting = some waiting)
      (last : waiting.batch.after = .stop (some ticket))
  | answered (done : ticket ∈ scheduler.acknowledged)

/-- What comes after a batch leads to the answer: the request is still in the mailbox, or the batch is the last one. -/
def Leads (ticket : Ticket) (scheduler : Scheduler) (next : After) : Prop :=
  (∃ front, scheduler.mailbox = front ++ [.shutdown ticket] ∧ (∀ command ∈ front, command.ends = false) ∧
    next.ends = false) ∨ next = .stop (some ticket)

theorem Leads.proceed {ticket : Ticket} {scheduler : Scheduler} {next : After} (leads : scheduler.Leads ticket next)
    (going : scheduler.accepting = true) (free : scheduler.waiting = none) : (scheduler.proceed next).Pledged ticket := by
  rcases leads with ⟨front, shape, others, going_on⟩ | rfl
  · have current : ∀ waiting, (scheduler.proceed next).waiting = some waiting → waiting.batch.after.ends = false := by
      intro waiting held
      rw [waiting_proceed, free] at held
      cases held
    cases next with
    | gather => exact .queued going front shape others current
    | acknowledge other => exact .queued going front shape others current
    | stop other => cases going_on
  · exact .answered (List.mem_append_left _ (List.mem_singleton_self ticket))

end Scheduler

section
variable {batch : Running} {next : After} {before after : Scheduler} {outcomes : List Outcome} {ticket : Ticket}

theorem Ran.pledged (ran : Ran batch before outcomes after) (going : before.accepting = true)
    (leads : before.Leads ticket batch.after) : after.Pledged ticket := by
  cases ran with
  | waits stage due =>
    rcases leads with ⟨front, shape, others, going_on⟩ | last
    · refine .queued going front shape others ?_
      rintro waiting ⟨⟩
      exact going_on
    · exact .underway going { batch, stage, due } rfl last
  | ends =>
    apply Scheduler.Leads.proceed
    · exact leads
    · exact going
    · rfl

theorem Applied.pledged (applied : Applied next before outcomes after) (going : before.accepting = true)
    (free : before.waiting = none) (leads : before.Leads ticket next) : after.Pledged ticket := by
  cases applied with
  | nothing => exact leads.proceed going free
  | batch now plan outcomes after gathered covers ran => exact ran.pledged going leads

theorem Ran.answered (ran : Ran batch before outcomes after) (done : ticket ∈ before.acknowledged) :
    ticket ∈ after.acknowledged := by
  cases ran with
  | waits => exact done
  | ends => exact Scheduler.mem_acknowledged_proceed.mpr (.inr done)

theorem Applied.answered (applied : Applied next before outcomes after) (done : ticket ∈ before.acknowledged) :
    ticket ∈ after.acknowledged := by
  cases applied with
  | nothing => exact Scheduler.mem_acknowledged_proceed.mpr (.inr done)
  | batch now plan outcomes after gathered covers ran => exact ran.answered done

theorem Turned.answered (turned : Turned before outcomes after) (done : ticket ∈ before.acknowledged) :
    ticket ∈ after.acknowledged := by
  cases turned with
  | rests | skips | gathers => exact done
  | obeys command rest next outcomes after ready first follows applied => exact applied.answered done
  | closes outcomes after free applied => exact applied.answered done
  | resumes waiting outcomes after held ran => exact ran.answered done

/-- The first command of a mailbox with the request at its end is the request, or one that is not to stop. -/
theorem first_of_pledged {front rest : List Command} {command : Command}
    (shape : before.mailbox = front ++ [.shutdown ticket]) (free : ∀ command ∈ front, command.ends = false)
    (first : before.mailbox = command :: rest) :
    (∃ others, rest = others ++ [.shutdown ticket] ∧ (∀ command ∈ others, command.ends = false) ∧ command.ends = false) ∨
      command = .shutdown ticket ∧ rest = [] := by
  cases front with
  | nil =>
    cases shape.symm.trans first
    exact .inr ⟨rfl, rfl⟩
  | cons other others =>
    cases shape.symm.trans first
    exact .inl ⟨others, rfl, fun command member => free command (List.mem_cons_of_mem _ member),
      free command List.mem_cons_self⟩

/-- While the last batch is being applied, nothing but its end can come. -/
theorem Turned.pledged_of_underway (turned : Turned before outcomes after) (going : before.accepting = true)
    {waiting : Waiting} (held : before.waiting = some waiting) (last : waiting.batch.after = .stop (some ticket)) :
    after.Pledged ticket := by
  have busy {ready : Prop} (free : before.waiting = none) : ready :=
    absurd (held.symm.trans free) (Option.some_ne_none waiting)
  cases turned with
  | rests => exact .underway going waiting held last
  | skips rest ready => exact busy ready.2
  | gathers now changes rest ready => exact busy ready.2
  | obeys command rest next outcomes after ready => exact busy ready.2
  | closes outcomes after free => exact busy free
  | resumes other outcomes after same ran =>
    cases held.symm.trans same
    exact ran.pledged going (.inr last)

/-- A request in the mailbox stays there until it is its turn, and then the last batch leads to the answer. -/
theorem Turned.pledged_of_queued (turned : Turned before outcomes after) (going : before.accepting = true)
    {front : List Command} (shape : before.mailbox = front ++ [.shutdown ticket])
    (free : ∀ command ∈ front, command.ends = false)
    (current : ∀ waiting, before.waiting = some waiting → waiting.batch.after.ends = false) : after.Pledged ticket := by
  cases turned with
  | rests => exact .queued going front shape free current
  | skips rest ready first =>
    rcases first_of_pledged shape free first with ⟨others, left, ends, -⟩ | ⟨same, -⟩
    · exact .queued going others left ends current
    · cases same
  | gathers now changes rest ready first =>
    rcases first_of_pledged shape free first with ⟨others, left, ends, -⟩ | ⟨same, -⟩
    · exact .queued going others left ends current
    · cases same
  | obeys command rest next outcomes after ready first follows applied =>
    apply applied.pledged going ready.2
    rcases first_of_pledged shape free first with ⟨others, left, ends, going_on⟩ | ⟨rfl, -⟩
    · refine .inl ⟨others, left, ends, ?_⟩
      simpa [Command.ends, follows] using going_on
    · cases follows
      exact .inr rfl
  | closes outcomes after idle applied => exact applied.pledged going idle (.inl ⟨front, shape, free, rfl⟩)
  | resumes waiting outcomes after held ran =>
    exact ran.pledged going (.inl ⟨front, shape, free, current waiting held⟩)

theorem Turned.pledged (turned : Turned before outcomes after) (pledged : before.Pledged ticket) : after.Pledged ticket := by
  cases pledged with
  | answered done => exact .answered (turned.answered done)
  | underway going waiting held last => exact turned.pledged_of_underway going held last
  | queued going front shape free current => exact turned.pledged_of_queued going shape free current

end

/-! ### Settling -/

namespace Machine

section
variable (regenerator : Regenerator σ) (now : Timestamp) {machine : Machine σ}

section
variable {property : Scheduler → Prop}
  (turn : ∀ {before outcomes after}, Turned before outcomes after → property before → property after)
include turn

/-- What every turn keeps of a scheduler is kept while it works through its mailbox. -/
theorem drain_turned (count : Nat) (valid : property machine.scheduler) :
    property (drain regenerator now count machine).scheduler := by
  induction count generalizing machine with
  | zero => exact valid
  | succ count ih => exact ih (turn (turn_turned regenerator now machine .take) valid)

theorem settle_turned (valid : property machine.scheduler) : property (machine.settle regenerator now).scheduler :=
  turn (turn_turned regenerator now _ .closeWindow)
    (drain_turned regenerator now turn _ (turn (turn_turned regenerator now machine .wake) valid))

end

private theorem drain_works (count : Nat) : ReflTransGen regenerator.Works machine.world (drain regenerator now count machine).world ∧
    (machine.scheduler.Fits → (drain regenerator now count machine).scheduler.Fits) := by
  induction count generalizing machine with
  | zero => exact ⟨.refl, id⟩
  | succ count ih =>
    obtain ⟨works, fits⟩ := turn_works regenerator now machine .take
    obtain ⟨later, fitting⟩ := @ih (take regenerator now machine)
    exact ⟨works.trans later, fun before => fitting (fits before)⟩

theorem settle_works : ReflTransGen regenerator.Works machine.world (machine.settle regenerator now).world ∧
    (machine.scheduler.Fits → (machine.settle regenerator now).scheduler.Fits) := by
  have woken := turn_works regenerator now machine .wake
  have drained := @drain_works _ regenerator now (wake regenerator now machine) (wake regenerator now machine).scheduler.mailbox.length
  have closed := turn_works regenerator now
    (drain regenerator now (wake regenerator now machine).scheduler.mailbox.length (wake regenerator now machine)) .closeWindow
  exact ⟨(woken.1.trans drained.1).trans closed.1, fun fits => closed.2 (drained.2 (woken.2 fits))⟩

private theorem drain_of_busy (count : Nat) (busy : ¬(machine.scheduler.accepting = true ∧ machine.scheduler.waiting = none)) :
    drain regenerator now count machine = machine := by
  induction count with
  | zero => rfl
  | succ count ih => rw [drain, take_of_busy regenerator now machine busy, ih]

/-- A scheduler that is ready after it worked through its mailbox has nothing left in it. -/
theorem drain_empties (count : Nat) (enough : machine.scheduler.mailbox.length ≤ count)
    (ready : (drain regenerator now count machine).scheduler.accepting = true ∧
      (drain regenerator now count machine).scheduler.waiting = none) :
    (drain regenerator now count machine).scheduler.mailbox = [] := by
  induction count generalizing machine with
  | zero => exact List.length_eq_zero_iff.mp (Nat.le_zero.mp enough)
  | succ count ih =>
    by_cases first : machine.scheduler.accepting = true ∧ machine.scheduler.waiting = none
    · apply ih ?_ ready
      cases shape : machine.scheduler.mailbox with
      | nil => simp [take_of_empty regenerator now machine shape, shape]
      | cons command rest =>
        obtain ⟨batch, -, spends⟩ := take_spends regenerator now first shape
        have left : (take regenerator now machine).scheduler.mailbox.length ≤ rest.length := spends.mailbox
        rw [shape, List.length_cons] at enough
        omega
    · rw [drain_of_busy regenerator now (count + 1) first] at ready
      exact absurd ready first

private theorem drain_load (steady : regenerator.Steady) (count : Nat) : (drain regenerator now count machine).load ≤ machine.load := by
  induction count generalizing machine with
  | zero => exact Nat.le_refl _
  | succ count ih => exact Nat.le_trans ih (take_load regenerator now machine steady)

/-- Nothing happens before the time has come that a batch waits for. -/
theorem settle_of_early {waiting : Waiting} (held : machine.scheduler.waiting = some waiting) (early : ¬waiting.due ≤ now) :
    machine.settle regenerator now = machine := by
  have busy : ¬(machine.scheduler.accepting = true ∧ machine.scheduler.waiting = none) := by simp [held]
  have woken : wake regenerator now machine = machine := by simp only [wake, held, if_neg early]
  rw [settle, woken, drain_of_busy regenerator now _ busy, closeWindow_eq, expired, held]
  rfl

/-- Once the scheduler was asked to stop and has settled, the answer was given, or a batch is to be waited for. There
is to be waited less often if a wait is over. -/
theorem settle_pledged (steady : regenerator.Steady) {ticket : Ticket} (pledged : machine.scheduler.Pledged ticket) :
    ticket ∈ (machine.settle regenerator now).scheduler.acknowledged ∨
      (∃ waiting, (machine.settle regenerator now).scheduler.waiting = some waiting) ∧
        ∀ waiting, machine.scheduler.waiting = some waiting →
          (machine.settle regenerator now).load + (if waiting.due ≤ now then 1 else 0) ≤ machine.load := by
  have woken : (wake regenerator now machine).scheduler.Pledged ticket :=
    (turn_turned regenerator now machine .wake).pledged pledged
  have spent {waiting : Waiting} (held : machine.scheduler.waiting = some waiting) :=
    wake_load regenerator now machine steady held
  rw [settle]
  generalize wake regenerator now machine = awake at woken spent ⊢
  have drained := drain_turned regenerator now Turned.pledged awake.scheduler.mailbox.length woken
  have load : (drain regenerator now awake.scheduler.mailbox.length awake).load ≤ awake.load :=
    drain_load regenerator now steady _
  have empties := drain_empties regenerator now awake.scheduler.mailbox.length (Nat.le_refl awake.scheduler.mailbox.length)
  generalize drain regenerator now awake.scheduler.mailbox.length awake = rested at drained load empties ⊢
  cases held : rested.scheduler.waiting with
  | some waiting =>
    have idle : closeWindow regenerator now rested = rested := by
      rw [closeWindow_eq, expired, held]
      rfl
    rw [idle]
    refine .inr ⟨⟨waiting, held⟩, fun earlier there => ?_⟩
    exact Nat.le_trans (Nat.add_le_add_right load _) (spent there)
  | none =>
    -- The request can neither be in an empty mailbox nor wait for a batch, so it has been answered.
    cases drained with
    | answered done => exact .inl ((turn_turned regenerator now rested .closeWindow).answered done)
    | underway going waiting there => exact absurd (there.symm.trans held) (Option.some_ne_none waiting)
    | queued going front shape =>
      rw [empties ⟨going, held⟩] at shape
      simp at shape

end
end Machine
end FreshDocs.Batch
