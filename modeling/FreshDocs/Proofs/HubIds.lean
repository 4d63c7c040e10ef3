import FreshDocs.Proofs.HubConflicts
import FreshDocs.Proofs.HubLedger

/-! The ids that a hub draws. A request draws one for a conflict that it raises and one for a revision that
settles a conflict, and the answer tells which. -/

namespace FreshDocs.Sync

def QueueOutcome.drawn? : QueueOutcome → Option Uuid
  | .conflict id => some id
  | .queued _ | .conflictUpdated _ => none

def settlerId? (answer : Except Error Revision) : Option Uuid :=
  answer.toOption.map (·.id)

namespace Hub
open Std

def Request.drawn? (now : Timestamp) (hub : Hub) : Request → Option Uuid
  | .submit revision => (hub.submit now revision).1.drawn?
  | .resolve id resolution => settlerId? (hub.resolve now id resolution).1
  | _ => none

def Drawn (hub : Hub) (id : Uuid) : Prop :=
  ∃ number < hub.ids.next, hub.ids.nth number = id

section
variable {hub : Hub} {now : Timestamp} {request : Request} {id : Uuid} {count : Nat}

theorem Drawn.apply (drawn : Drawn hub id) (now : Timestamp) (request : Request) : Drawn (request.apply now hub) id := by
  obtain ⟨number, before, same⟩ := drawn
  rcases ids_apply now hub request with still | next
  · rw [Drawn, still]
    exact ⟨number, before, same⟩
  · rw [Drawn, next]
    exact ⟨number, Nat.lt_succ_of_lt before, same⟩

theorem Issued.drawn (issued : Issued hub) {conflict : Conflict} (present : hub.conflicts[id]? = some conflict) : Drawn hub id := by
  apply issued
  rw [ExtTreeMap.mem_iff_isSome_getElem?, present]
  rfl

theorem drawn?_new (tells : request.drawn? now hub = some id) (enough : (request.apply now hub).ids.next ≤ count)
    (distinct : hub.ids.Distinct count) : ¬ Drawn hub id ∧ Drawn (request.apply now hub) id := by
  have drawn : hub.ids.draw.1 = id ∧ (request.apply now hub).ids = hub.ids.draw.2 := by
    cases request with
    | submit revision =>
      simp only [Request.drawn?] at tells
      cases held : hub.conflictOf[revision.path]? with
      | some other =>
        rw [outcome_absorbed now held] at tells
        cases tells
      | none =>
        cases found : hub.raised? now revision with
        | some conflict =>
          rw [outcome_raised now held found] at tells
          exact ⟨Option.some.inj tells, ids_congr (docket_submit_raised now held found)⟩
        | none =>
          obtain ⟨dropped, queued⟩ := outcome_queued now held found
          rw [queued] at tells
          cases tells
    | resolve other resolution =>
      simp only [Request.drawn?] at tells
      cases known : hub.conflicts[other]? with
      | none =>
        rw [resolve_unknown now resolution known] at tells
        cases tells
      | some conflict =>
        rw [resolve_known now resolution known] at tells
        refine ⟨?_, (ids_congr (docket_resolve now resolution known)).trans (ids_enqueue _ _)⟩
        cases resolution <;> exact Option.some.inj tells
    | _ => cases tells
  obtain ⟨same, next⟩ := drawn
  rw [next] at enough
  constructor
  · intro old
    obtain ⟨number, before, named⟩ := old
    have again := distinct number (Nat.lt_trans before enough) hub.ids.next enough (named.trans same.symm)
    omega
  · rw [Drawn, next]
    exact ⟨hub.ids.next, Nat.lt_succ_self _, same⟩

/-- A conflict was there before a request, or the request is a revision of its document and raises it. -/
theorem conflict_origin {conflict : Conflict} (present : (request.apply now hub).conflicts[id]? = some conflict) :
    (∃ old, hub.conflicts[id]? = some old ∧ old.path = conflict.path) ∨
      ∃ revision, request = .submit revision ∧ conflict.path = revision.path ∧ request.drawn? now hub = some id := by
  have happened := change now hub request
  generalize after : (request.apply now hub).docket = docket at happened
  have conflicts : (request.apply now hub).conflicts = docket.conflicts := congrArg Docket.conflicts after
  rw [conflicts] at present
  cases happened with
  | idle => exact .inl ⟨conflict, present, rfl⟩
  | @absorbed revision absorbing held =>
    left
    simp only [docket, ExtTreeMap.getElem?_modify] at present
    split at present
    next same =>
      obtain ⟨old, there, rfl⟩ := Option.map_eq_some_iff.mp present
      exact ⟨old, LawfulEqOrd.eq_of_compare same ▸ there, (absorb_path old revision).1.symm⟩
    next => exact ⟨conflict, present, rfl⟩
  | @raised revision made free found =>
    obtain ⟨place, named, -⟩ := raised?_shape found
    simp only [docket, raise, ExtTreeMap.getElem?_insert] at present
    split at present
    next same =>
      right
      cases present
      refine ⟨revision, rfl, place, ?_⟩
      rw [Request.drawn?, outcome_raised now free found, ← LawfulEqOrd.eq_of_compare same, named]
      rfl
    next => exact .inl ⟨conflict, present, rfl⟩
  | @queued revision free clear =>
    have same := conflicts_enqueue (hub.pruneRecent now) revision
    exact .inl ⟨conflict, (congrArg (·[id]?) same).symm.trans present, rfl⟩
  | @settled settling resolution settled known =>
    left
    have same := conflicts_enqueue (hub.settle settling settled.path) (settled.settle hub.ids.draw.1 now resolution)
    have kept := (congrArg (·[id]?) same).symm.trans present
    simp only [settle, ExtTreeMap.getElem?_erase] at kept
    split at kept
    · cases kept
    · exact ⟨conflict, kept, rfl⟩
  | flushed => exact .inl ⟨conflict, present, rfl⟩

end
end Hub
end FreshDocs.Sync
