import FreshDocs.Sync.Hub

/-! Everything that can be asked of a hub, and what each request does to what the hub knows about
documents. Clients and the feed of events have no part in it: a message that does not arrive
costs a client its place and nothing else. -/

namespace FreshDocs.Sync.Hub
open Std

inductive Request where
  | register (transport : Transport)
  | deregister (client : Nat)
  | submit (revision : Revision)
  | resolve (id : Uuid) (resolution : Resolution)
  | flush
  | broadcast (message : Message)
  | heartbeat

def Request.apply (now : Timestamp) (hub : Hub) : Request → Hub
  | .register transport => (hub.register transport).2
  | .deregister client => (hub.deregister client).2
  | .submit revision => (hub.submit now revision).2
  | .resolve id resolution => (hub.resolve now id resolution).2
  | .flush => (hub.flush now).2
  | .broadcast message => (hub.broadcast message).2
  | .heartbeat => (hub.heartbeat now).2

def run (hub : Hub) : List (Timestamp × Request) → Hub
  | [] => hub
  | (now, request) :: rest => run (request.apply now hub) rest

theorem run_append (hub : Hub) (first second : List (Timestamp × Request)) :
    run hub (first ++ second) = run (run hub first) second := by
  induction first generalizing hub with
  | nil => rfl
  | cons entry rest ih => exact ih _

/-- What a hub knows about documents. -/
structure Docket where
  settings : Settings
  queue : List Revision
  conflicts : ExtTreeMap Uuid Conflict
  conflictOf : ExtTreeMap String Uuid
  recent : ExtTreeMap String Revision
  ids : Uuid.Supply
  broadcasts : Nat
  dropped : Nat
  raised : Nat
  resolved : Nat

def docket (hub : Hub) : Docket :=
  { settings := hub.settings
    queue := hub.queue
    conflicts := hub.conflicts
    conflictOf := hub.conflictOf
    recent := hub.recent
    ids := hub.ids
    broadcasts := hub.counters.broadcasts
    dropped := hub.counters.dropped
    raised := hub.counters.conflictsRaised
    resolved := hub.counters.conflictsResolved }

/-! ### Requests about clients -/

@[simp] theorem docket_emit (hub : Hub) (event : Event) : (hub.emit event).docket = hub.docket := rfl

@[simp] theorem docket_register (hub : Hub) (transport : Transport) :
    (hub.register transport).2.docket = hub.docket := rfl

@[simp] theorem docket_disconnect (hub : Hub) (client : Nat) (reason : String) :
    (hub.disconnect client reason).docket = hub.docket := rfl

@[simp] theorem docket_deregister (hub : Hub) (client : Nat) :
    (hub.deregister client).2.docket = hub.docket := by
  unfold deregister
  split <;> rfl

private theorem docket_disconnects (failed : List (Nat × TransportError)) (hub : Hub) :
    (failed.foldl (fun hub (client, error) => hub.disconnect client error.message) hub).docket =
      hub.docket := by
  induction failed generalizing hub with
  | nil => rfl
  | cons failure rest ih => exact ih _

@[simp] theorem docket_broadcast (hub : Hub) (message : Message) :
    (hub.broadcast message).2.docket = hub.docket := by
  rcases sent : deliver message 0 hub.clients.toList with ⟨delivered, failed, clients⟩
  simp only [broadcast, sent]
  exact docket_disconnects failed { hub with clients := clients.toArray }

@[simp] theorem docket_heartbeat (hub : Hub) (now : Timestamp) :
    (hub.heartbeat now).2.docket = hub.docket :=
  docket_broadcast hub _

@[simp] theorem docket_reportDrop (hub : Hub) (now : Timestamp) (dropped : Revision) :
    (hub.reportDrop now dropped).docket = hub.docket :=
  docket_broadcast hub _

@[simp] theorem docket_passOn (now : Timestamp) (revisions : List Revision) (hub : Hub) :
    (passOn now revisions hub).2.docket = hub.docket := by
  induction revisions generalizing hub with
  | nil => rfl
  | cons revision rest ih =>
    simp only [passOn, ih, docket_emit, docket_broadcast]

/-! ### Submission -/

/-- A revision that meets a pending conflict of its document goes into that conflict. -/
theorem docket_submit_absorbed {hub : Hub} {revision : Revision} {id : Uuid} (now : Timestamp)
    (held : hub.conflictOf[revision.path]? = some id) :
    (hub.submit now revision).2.docket =
      docket { hub with conflicts := hub.conflicts.modify id (·.absorb revision) } := by
  simp only [submit, held, docket_emit]

def raised? (hub : Hub) (now : Timestamp) (revision : Revision) : Option Conflict :=
  ((hub.pruneRecent now).competing? revision).bind
    (Conflict.between? (hub.pruneRecent now).ids.draw.1 now · revision)

theorem docket_submit_raised {hub : Hub} {revision : Revision} {conflict : Conflict} (now : Timestamp)
    (free : hub.conflictOf[revision.path]? = none)
    (found : hub.raised? now revision = some conflict) :
    (hub.submit now revision).2.docket =
      docket (raise { hub.pruneRecent now with ids := hub.ids.draw.2 } conflict) := by
  simp only [raised?] at found
  simp only [submit, free, found, docket_emit, docket_broadcast]
  rfl

theorem docket_submit_queued {hub : Hub} {revision : Revision} (now : Timestamp)
    (free : hub.conflictOf[revision.path]? = none) (clear : hub.raised? now revision = none) :
    (hub.submit now revision).2.docket = ((hub.pruneRecent now).enqueue revision).2.docket := by
  simp only [raised?] at clear
  simp only [submit, free, clear]
  obtain ⟨dropped, queued⟩ := (hub.pruneRecent now).enqueue revision
  cases dropped <;> simp

theorem outcome_absorbed {hub : Hub} {revision : Revision} {id : Uuid} (now : Timestamp)
    (held : hub.conflictOf[revision.path]? = some id) :
    (hub.submit now revision).1 = .conflictUpdated id := by
  simp only [submit, held]

theorem outcome_raised {hub : Hub} {revision : Revision} {conflict : Conflict} (now : Timestamp)
    (free : hub.conflictOf[revision.path]? = none) (found : hub.raised? now revision = some conflict) :
    (hub.submit now revision).1 = .conflict hub.ids.draw.1 := by
  simp only [raised?] at found
  simp only [submit, free, found]
  rfl

theorem outcome_queued {hub : Hub} {revision : Revision} (now : Timestamp)
    (free : hub.conflictOf[revision.path]? = none) (clear : hub.raised? now revision = none) :
    ∃ dropped, (hub.submit now revision).1 = .queued dropped := by
  simp only [raised?] at clear
  simp only [submit, free, clear]
  obtain ⟨dropped, queued⟩ := (hub.pruneRecent now).enqueue revision
  cases dropped with
  | none => exact ⟨none, rfl⟩
  | some oldest => exact ⟨some oldest.id, rfl⟩

/-- The queue either has room for one more revision or loses its oldest. -/
theorem enqueue_cases (hub : Hub) (revision : Revision) :
    (hub.queue.length < hub.queueLimit ∧
      hub.enqueue revision = (none, { hub with queue := hub.queue ++ [revision] })) ∨
    ∃ oldest rest, hub.queueLimit ≤ hub.queue.length ∧ hub.queue ++ [revision] = oldest :: rest ∧
      hub.enqueue revision =
        (some oldest,
          { hub with
            queue := rest
            counters := { hub.counters with dropped := hub.counters.dropped + 1 } }) := by
  cases shape : hub.queue ++ [revision] with
  | nil => simp at shape
  | cons oldest rest =>
    have size : hub.queue.length = rest.length := by
      simpa using congrArg List.length shape
    by_cases full : hub.queueLimit < rest.length + 1
    · right
      refine ⟨oldest, rest, by omega, rfl, ?_⟩
      simp only [enqueue, shape, full, if_true]
    · left
      refine ⟨by omega, ?_⟩
      simp only [enqueue, shape, full, if_false]

/-! ### Resolution and flush -/

theorem resolve_unknown {hub : Hub} {id : Uuid} (now : Timestamp) (resolution : Resolution)
    (unknown : hub.conflicts[id]? = none) :
    (hub.resolve now id resolution) = (.error (.unknownConflict id), hub) := by
  simp only [resolve, unknown]

/-- The hub with a conflict taken off the docket, ready for the revision that settles it. -/
def settle (hub : Hub) (id : Uuid) (path : String) : Hub :=
  { hub with
    ids := hub.ids.draw.2
    conflicts := hub.conflicts.erase id
    conflictOf := hub.conflictOf.erase path
    counters := { hub.counters with conflictsResolved := hub.counters.conflictsResolved + 1 } }

theorem resolve_known {hub : Hub} {id : Uuid} {conflict : Conflict} (now : Timestamp)
    (resolution : Resolution) (known : hub.conflicts[id]? = some conflict) :
    (hub.resolve now id resolution).1 = .ok (conflict.settle hub.ids.draw.1 now resolution) := by
  simp only [resolve, known]

theorem docket_resolve {hub : Hub} {id : Uuid} {conflict : Conflict} (now : Timestamp)
    (resolution : Resolution) (known : hub.conflicts[id]? = some conflict) :
    (hub.resolve now id resolution).2.docket =
      ((hub.settle id conflict.path).enqueue (conflict.settle hub.ids.draw.1 now resolution)).2.docket := by
  simp only [resolve, known, settle, docket_emit]
  generalize enqueue _ _ = queued
  obtain ⟨dropped, queued⟩ := queued
  cases dropped <;> simp

theorem flush_of_empty {hub : Hub} (now : Timestamp) (empty : hub.queue = []) :
    hub.flush now = ({}, hub) := by
  simp [flush, empty]

theorem docket_flush (hub : Hub) (now : Timestamp) :
    (hub.flush now).2.docket =
      docket { hub with
        queue := []
        recent := (compact hub.queue).foldl (fun recent revision => recent.insert revision.path revision)
          hub.recent
        counters := { hub.counters with
          broadcasts := hub.counters.broadcasts + (compact hub.queue).length } } := by
  cases shape : hub.queue with
  | nil =>
    simp only [flush_of_empty now shape, compact, List.foldl_nil, List.length_nil, Nat.add_zero]
    rw [← shape]
  | cons revision rest => simp only [flush, shape, List.isEmpty_cons, if_false, docket_passOn, Bool.false_eq_true]

theorem compact_sublist (queue : List Revision) : (compact queue).Sublist queue := by
  induction queue with
  | nil => exact .slnil
  | cons first rest ih =>
    rw [compact]
    split
    · exact ih.cons first
    · exact ih.cons_cons first

theorem compact_subset {queue : List Revision} {revision : Revision} (member : revision ∈ compact queue) :
    revision ∈ queue :=
  (compact_sublist queue).subset member

end FreshDocs.Sync.Hub
