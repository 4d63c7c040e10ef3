import FreshDocs.Proofs.HubNotices
import Mathlib.Algebra.Ring.Nat

/-! The messages that a hub sends, request by request. What it sends comes from what it knows about
documents; of its clients it only ever tells how many there are. -/

namespace FreshDocs.Sync

/-- Two messages are the same, or both are signs of life that may tell different numbers of clients. -/
def Message.Alike (first second : Message) : Prop :=
  first = second ∨ ∃ now one two, first = .heartbeat now one ∧ second = .heartbeat now two

def Message.subject? (message : Message) : Option String :=
  if message.kind = .update then (message.data.member? "path").bind Json.string? else none

theorem Message.subject?_ofRevision (now : Timestamp) (revision : Revision) :
    (Message.ofRevision now revision).subject? = some revision.path :=
  rfl

namespace Hub

def overflow (hub : Hub) (now : Timestamp) (revision : Revision) : List Message :=
  (hub.enqueue revision).1.toList.map ((hub.enqueue revision).2.dropMessage now)

def Request.messages (now : Timestamp) (hub : Hub) : Request → List Message
  | .register _ | .deregister _ => []
  | .submit revision =>
    match hub.conflictOf[revision.path]?, hub.raised? now revision with
    | some _, _ => []
    | none, some conflict => [.make now .conflict (toJson conflict)]
    | none, none => (hub.pruneRecent now).overflow now revision
  | .resolve id resolution =>
    match hub.conflicts[id]? with
    | some conflict => (hub.settle id conflict.path).overflow now (conflict.settle hub.ids.draw.1 now resolution)
    | none => []
  | .flush => (compact hub.queue).map (.ofRevision now)
  | .broadcast message => [message]
  | .heartbeat => [.heartbeat now hub.clientCount]

def messages (hub : Hub) : List (Timestamp × Request) → List Message
  | [] => []
  | (now, request) :: rest => request.messages now hub ++ messages (request.apply now hub) rest

/-- A message that carries a revision was handed in as it is, or a flush makes it of what is in the queue. -/
theorem subject_of_messages {now : Timestamp} {hub : Hub} {request : Request} {message : Message} {path : String}
    (sent : message ∈ request.messages now hub) (subject : message.subject? = some path) :
    request = .broadcast message ∨
      request = .flush ∧ ∃ revision ∈ compact hub.queue, message = .ofRevision now revision ∧ revision.path = path := by
  have quiet {other : Hub} {revision : Revision} (told : message ∈ other.overflow now revision) : False := by
    obtain ⟨oldest, -, rfl⟩ := List.mem_map.mp told
    cases subject
  cases request with
  | register transport => cases sent
  | deregister client => cases sent
  | submit revision =>
    simp only [Request.messages] at sent
    split at sent
    · cases sent
    · cases List.mem_singleton.mp sent
      cases subject
    · exact (quiet sent).elim
  | resolve other resolution =>
    simp only [Request.messages] at sent
    split at sent
    · exact (quiet sent).elim
    · cases sent
  | flush =>
    obtain ⟨revision, passed, rfl⟩ := List.mem_map.mp sent
    exact .inr ⟨rfl, revision, passed, rfl, Option.some.inj subject⟩
  | broadcast other => exact .inl (by rw [List.mem_singleton.mp sent])
  | heartbeat =>
    cases List.mem_singleton.mp sent
    cases subject

def reached (hub : Hub) : Nat :=
  (hub.clients.toList.map (·.received.size)).sum

theorem reached_broadcast (hub : Hub) (message : Message) :
    (hub.broadcast message).2.reached = hub.reached + hub.clients.countP (·.takes message) := by
  have sizes (list : List Client) : ((list.map (·.take message)).map (·.received.size)).sum =
      (list.map (·.received.size)).sum + list.countP (·.takes message) := by
    induction list with
    | nil => rfl
    | cons client rest ih =>
      rw [List.countP_cons]
      simp only [List.map_cons, List.sum_cons, ih]
      rcases client.take_cases message with ⟨-, lost, same⟩ | ⟨-, taken, same⟩ | ⟨-, lost, same⟩
      all_goals rw [same]
      · simp [lost]
        omega
      · simp [taken]
        omega
      · simp [lost]
        omega
  rw [reached, clients_broadcast, Array.toList_map, sizes, Array.countP_toList]
  rfl

/-- Messages went out between two states, each to every client that was on, and nothing else
happened to clients. -/
structure Sends (before after : Hub) (messages : List Message) : Prop where
  clients : after.clients = before.clients.map fun client => messages.foldl Client.take client
  deliveries : after.counters.deliveries + before.reached = before.counters.deliveries + after.reached
  places : after.clientCount + after.counters.disconnects = before.clientCount + before.counters.disconnects

namespace Sends

variable {first second third : Hub} {messages others : List Message}

theorem still (clients : second.clients = first.clients)
    (deliveries : second.counters.deliveries = first.counters.deliveries)
    (disconnects : second.counters.disconnects = first.counters.disconnects) : Sends first second [] := by
  constructor
  · simp [clients]
  · rw [reached, reached, clients, deliveries]
  · rw [clientCount, clientCount, clients, disconnects]

theorem refl (hub : Hub) : Sends hub hub [] :=
  .still rfl rfl rfl

theorem trans (one : Sends first second messages) (two : Sends second third others) :
    Sends first third (messages ++ others) := by
  have deliveries := one.deliveries
  have further := two.deliveries
  have places := one.places
  have later := two.places
  constructor
  · rw [two.clients, one.clients, Array.map_map]
    simp only [List.foldl_append]
    rfl
  · omega
  · omega

theorem broadcast (hub : Hub) (message : Message) : Sends hub (hub.broadcast message).2 [message] := by
  obtain ⟨deliveries, disconnects⟩ := counters_broadcast hub message
  have clients := clients_broadcast hub message
  have on : (hub.broadcast message).2.clientCount = hub.clients.countP (·.takes message) := by
    rw [clientCount, clients, Array.countP_map]
    congr 1
    funext client
    exact client.connected_take message
  have more := reached_broadcast hub message
  constructor
  · exact clients
  · omega
  · omega

theorem emit (hub : Hub) (event : Event) : Sends hub (hub.emit event) [] :=
  .still rfl rfl rfl

theorem enqueue (hub : Hub) (revision : Revision) : Sends hub (hub.enqueue revision).2 [] := by
  rcases enqueue_cases hub revision with ⟨-, queued⟩ | ⟨oldest, rest, -, -, queued⟩
  all_goals
    rw [queued]
    exact .still rfl rfl rfl

theorem reportDrop (hub : Hub) (now : Timestamp) (dropped : Revision) :
    Sends hub (hub.reportDrop now dropped) [hub.dropMessage now dropped] :=
  (Sends.broadcast hub _).trans (.emit _ _)

theorem submit (hub : Hub) (now : Timestamp) (revision : Revision) :
    Sends hub (hub.submit now revision).2 ((Request.submit revision).messages now hub) := by
  simp only [Request.messages]
  cases held : hub.conflictOf[revision.path]? with
  | some id =>
    simp only [Hub.submit, held]
    exact .still rfl rfl rfl
  | none =>
    cases found : hub.raised? now revision with
    | some conflict =>
      simp only [raised?] at found
      simp only [Hub.submit, held, found]
      have quiet : Sends hub (raise { hub.pruneRecent now with ids := hub.ids.draw.2 } conflict) [] := .still rfl rfl rfl
      exact (quiet.trans (.broadcast _ _)).trans (.emit _ _)
    | none =>
      simp only [raised?] at found
      simp only [Hub.submit, held, found, overflow]
      have pruned : Sends hub (hub.pruneRecent now) [] := .still rfl rfl rfl
      have queued := pruned.trans (.enqueue (hub.pruneRecent now) revision)
      generalize (hub.pruneRecent now).enqueue revision = after at queued ⊢
      rcases after with ⟨_ | oldest, after⟩
      · exact queued.trans (.emit _ _)
      · exact (queued.trans (.emit _ _)).trans (.reportDrop _ now oldest)

theorem resolve (hub : Hub) (now : Timestamp) (id : Uuid) (resolution : Resolution) :
    Sends hub (hub.resolve now id resolution).2 ((Request.resolve id resolution).messages now hub) := by
  simp only [Request.messages]
  cases known : hub.conflicts[id]? with
  | none =>
    rw [resolve_unknown now resolution known]
    exact .refl hub
  | some conflict =>
    have settled : Sends hub (hub.settle id conflict.path) [] := .still rfl rfl rfl
    have queued := settled.trans (.enqueue _ (conflict.settle hub.ids.draw.1 now resolution))
    simp only [settle] at queued
    simp only [Hub.resolve, known, overflow, settle]
    generalize Hub.enqueue _ _ = after at queued ⊢
    rcases after with ⟨_ | oldest, after⟩
    · exact queued.trans (.emit _ _)
    · exact (queued.trans (.reportDrop _ now oldest)).trans (.emit _ _)

theorem passOn (now : Timestamp) (batch : List Revision) (hub : Hub) :
    Sends hub (Hub.passOn now batch hub).2 (batch.map (.ofRevision now)) := by
  induction batch generalizing hub with
  | nil => exact .refl hub
  | cons revision rest ih => exact ((Sends.broadcast hub _).trans (.emit _ _)).trans (ih _)

theorem flush (hub : Hub) (now : Timestamp) :
    Sends hub (hub.flush now).2 (Request.flush.messages now hub) := by
  simp only [Request.messages]
  cases shape : hub.queue with
  | nil =>
    rw [flush_of_empty now shape]
    exact .refl hub
  | cons first rest =>
    simp only [Hub.flush, shape, List.isEmpty_cons, Bool.false_eq_true, if_false]
    have drained : Sends hub { hub with
        queue := []
        recent := (compact (first :: rest)).foldl (fun recent revision => recent.insert revision.path revision) hub.recent
        counters := { hub.counters with broadcasts := hub.counters.broadcasts + (compact (first :: rest)).length } } [] :=
      .still rfl rfl rfl
    exact drained.trans (.passOn now _ _)

end Sends

/-! ### Clients play no part -/

/-- A hub without clients that knows as much about documents. -/
def Docket.hub (docket : Docket) : Hub :=
  { settings := docket.settings
    queue := docket.queue
    conflicts := docket.conflicts
    conflictOf := docket.conflictOf
    recent := docket.recent
    ids := docket.ids
    counters :=
      { broadcasts := docket.broadcasts
        dropped := docket.dropped
        conflictsRaised := docket.raised
        conflictsResolved := docket.resolved } }

private theorem enqueue_bare (hub : Hub) (revision : Revision) :
    (hub.docket.hub.enqueue revision).1 = (hub.enqueue revision).1 ∧
      (hub.docket.hub.enqueue revision).2.docket = (hub.enqueue revision).2.docket := by
  rcases enqueue_cases hub revision with ⟨room, queued⟩ | ⟨oldest, rest, full, shape, queued⟩
  · rcases enqueue_cases hub.docket.hub revision with ⟨-, bare⟩ | ⟨_, _, full, -, -⟩
    · rw [queued, bare]
      exact ⟨rfl, rfl⟩
    · exact absurd room (Nat.not_lt.mpr full)
  · rcases enqueue_cases hub.docket.hub revision with ⟨room, -⟩ | ⟨first, others, -, same, bare⟩
    · exact absurd full (Nat.not_le.mpr room)
    · cases shape.symm.trans same
      rw [queued, bare]
      exact ⟨rfl, rfl⟩

private theorem overflow_bare (hub : Hub) (now : Timestamp) (revision : Revision) :
    hub.docket.hub.overflow now revision = hub.overflow now revision := by
  obtain ⟨dropped, same⟩ := enqueue_bare hub revision
  have queue : (hub.docket.hub.enqueue revision).2.queue = (hub.enqueue revision).2.queue := congrArg Docket.queue same
  have settings : (hub.docket.hub.enqueue revision).2.settings = (hub.enqueue revision).2.settings :=
    congrArg Docket.settings same
  have message : (hub.docket.hub.enqueue revision).2.dropMessage now = (hub.enqueue revision).2.dropMessage now := by
    funext oldest
    simp only [dropMessage, queue, settings]
  rw [overflow, overflow, dropped, message]

theorem apply_bare (now : Timestamp) (hub : Hub) (request : Request) :
    (request.apply now hub.docket.hub).docket = (request.apply now hub).docket := by
  cases request with
  | register transport => rfl
  | deregister client => exact (docket_deregister _ client).trans (docket_deregister hub client).symm
  | broadcast message => exact (docket_broadcast _ message).trans (docket_broadcast hub message).symm
  | heartbeat => exact (docket_heartbeat _ now).trans (docket_heartbeat hub now).symm
  | flush => exact (docket_flush _ now).trans (docket_flush hub now).symm
  | submit revision =>
    cases held : hub.conflictOf[revision.path]? with
    | some id =>
      have bare : hub.docket.hub.conflictOf[revision.path]? = some id := held
      exact (docket_submit_absorbed now bare).trans (docket_submit_absorbed now held).symm
    | none =>
      have bare : hub.docket.hub.conflictOf[revision.path]? = none := held
      cases found : hub.raised? now revision with
      | some conflict =>
        have raised : hub.docket.hub.raised? now revision = some conflict := found
        exact (docket_submit_raised now bare raised).trans (docket_submit_raised now held found).symm
      | none =>
        have clear : hub.docket.hub.raised? now revision = none := found
        rw [Request.apply, docket_submit_queued now bare clear, Request.apply, docket_submit_queued now held found]
        exact (enqueue_bare (hub.pruneRecent now) revision).2
  | resolve id resolution =>
    cases known : hub.conflicts[id]? with
    | none =>
      have bare : hub.docket.hub.conflicts[id]? = none := known
      rw [Request.apply, resolve_unknown now resolution bare, Request.apply, resolve_unknown now resolution known]
      rfl
    | some conflict =>
      have bare : hub.docket.hub.conflicts[id]? = some conflict := known
      rw [Request.apply, docket_resolve now resolution bare, Request.apply, docket_resolve now resolution known]
      exact (enqueue_bare (hub.settle id conflict.path) _).2

private theorem messages_bare (now : Timestamp) (hub : Hub) {request : Request} (silent : request ≠ .heartbeat) :
    request.messages now hub.docket.hub = request.messages now hub := by
  cases request with
  | heartbeat => exact absurd rfl silent
  | submit revision =>
    simp only [Request.messages, ← overflow_bare (hub.pruneRecent now)]
    rfl
  | resolve id resolution =>
    cases known : hub.conflicts[id]? with
    | none =>
      have bare : hub.docket.hub.conflicts[id]? = none := known
      simp only [Request.messages, known, bare]
    | some conflict =>
      have bare : hub.docket.hub.conflicts[id]? = some conflict := known
      simp only [Request.messages, known, bare]
      exact overflow_bare (hub.settle id conflict.path) now _
  | _ => rfl

theorem docket_apply {first second : Hub} (same : first.docket = second.docket) (now : Timestamp) (request : Request) :
    (request.apply now first).docket = (request.apply now second).docket := by
  rw [← apply_bare, same, apply_bare]

theorem messages_alike {first second : Hub} (same : first.docket = second.docket) (now : Timestamp) (request : Request) :
    List.Forall₂ Message.Alike (request.messages now first) (request.messages now second) := by
  cases request with
  | heartbeat => exact .cons (.inr ⟨now, _, _, rfl, rfl⟩) .nil
  | register transport => exact .nil
  | deregister client => exact .nil
  | broadcast message => exact .cons (.inl rfl) .nil
  | _ =>
    rw [← messages_bare now first (by simp), same, messages_bare now second (by simp)]
    exact List.forall₂_same.mpr fun message _ => .inl rfl

end Hub
end FreshDocs.Sync
