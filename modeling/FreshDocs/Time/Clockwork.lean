import FreshDocs.Time.Timestamp
/-!
Machines driven by a clock. A machine says when it next has something to do; the clock jumps
from one such time to the next, and whatever is due happens exactly then.
-/

namespace FreshDocs

structure Clockwork (σ : Type) where
  /-- When the machine next has something to do by itself. -/
  nextDue : σ → Option Timestamp
  /-- Does all that can be done at a time, until there is nothing left but to wait. -/
  settle : Timestamp → σ → σ

namespace Clockwork

variable {σ : Type}

def run (machine : Clockwork σ) (now target : Timestamp) (state : σ) : σ :=
  match machine.nextDue state with
  | none => state
  | some due =>
    if h : now < due ∧ due ≤ target then
      have : (target.toNanos - due.toNanos).toNat < (target.toNanos - now.toNanos).toNat := by
        have later : now.toNanos < due.toNanos := h.1
        have within : due.toNanos ≤ target.toNanos := h.2
        omega
      machine.run due target (machine.settle due state)
    else state
termination_by (target.toNanos - now.toNanos).toNat

/-- A machine that shows no more than a part of another one runs like it. -/
theorem run_map {σ τ : Type} {whole : Clockwork σ} {part : Clockwork τ} (view : σ → τ)
    (nextDue : ∀ state, part.nextDue (view state) = whole.nextDue state)
    (settle : ∀ now state, view (whole.settle now state) = part.settle now (view state))
    (now target : Timestamp) (state : σ) :
    view (whole.run now target state) = part.run now target (view state) := by
  induction now, state using run.induct whole target with
  | case1 now state idle => simp [run, nextDue, idle]
  | case2 now state due next ready _ ih =>
    rw [run, run, nextDue, next]
    simp only [ready, and_self, dite_true, ih, settle]
  | case3 now state due next late =>
    rw [run, run, nextDue, next]
    simp only [late, dite_false]

/-- What survives whenever the machine settles survives the passing of time. -/
theorem run_keeps {σ : Type} {machine : Clockwork σ} {property : σ → Prop} {target : Timestamp}
    (settle : ∀ now state, now ≤ target → property state → property (machine.settle now state))
    (now : Timestamp) {state : σ} (valid : property state) :
    property (machine.run now target state) := by
  fun_induction machine.run now target state with
  | case1 => exact valid
  | case2 now state due next ready _ ih => exact ih (settle due state ready.2 valid)
  | case3 => exact valid

/-- If nothing is due once the machine has settled, nothing that is due is ever missed by the clock. -/
theorem run_awaits {σ : Type} {machine : Clockwork σ} {property : σ → Prop} {target : Timestamp}
    (keeps : ∀ now state, property state → property (machine.settle now state))
    (settles : ∀ now state, property state → ∀ due, machine.nextDue (machine.settle now state) = some due → now < due)
    (now : Timestamp) {state : σ} (valid : property state) (awaits : ∀ due, machine.nextDue state = some due → now < due) :
    ∀ due, machine.nextDue (machine.run now target state) = some due → target < due := by
  fun_induction machine.run now target state with
  | case1 now state idle =>
    intro due next
    rw [idle] at next
    cases next
  | case2 now state due next ready _ ih => exact ih (keeps due state valid) (settles due state valid)
  | case3 now state due next late =>
    intro later same
    rw [next] at same
    cases same
    exact Int.not_le.mp fun early => late ⟨awaits due next, early⟩

/-- Lets the clock jump from one due time to the next until a condition holds, at most `fuel`
times and only to times before `limit`; and says what time it is then. -/
def seek (machine : Clockwork σ) (done : σ → Bool) (limit : Timestamp) :
    (fuel : Nat) → Timestamp → σ → Timestamp × σ
  | 0, now, state => (now, state)
  | fuel + 1, now, state =>
    if done state then (now, state)
    else
      match machine.nextDue state with
      | none => (now, state)
      | some due =>
        if due < limit then machine.seek done limit fuel due (machine.settle due state)
        else (now, state)

end Clockwork
end FreshDocs
