import FreshDocs.Proofs.HubFates
import FreshDocs.Proofs.HubIds

/-! What is asked of a hub by those who make documents and by those who run it. A document is handed over under an
id that the hub draws for it. Each revision that is handed over enters the queue or goes into a conflict, and the
feed tells which conflicts were raised, grew and were settled. -/

namespace FreshDocs.Sync

def Event.isConflict : Event → Bool
  | .conflictDetected _ | .conflictUpdated _ _ | .conflictResolved _ _ => true
  | .clientRegistered _ | .clientDisconnected _ _ | .queued _ _ | .dropped _ | .broadcast _ _ _ => false

def QueueOutcome.conflict? : QueueOutcome → Option Uuid
  | .queued _ => none
  | .conflict id | .conflictUpdated id => some id

namespace Hub
open Std

inductive Call where
  /-- A document is handed over. -/
  | publish (scope : Scope) (path content : String) (origin : Origin)
  | resolve (id : Uuid) (resolution : Resolution)
  | flush
  /-- Clients are told how something went. -/
  | status (data : Json)
  | heartbeat

namespace Call

def byHand : Call → Bool
  | .publish _ _ _ origin => origin = .manual
  | .resolve _ _ => true
  | .flush | .status _ | .heartbeat => false

def request (now : Timestamp) (hub : Hub) : Call → Request
  | .publish scope path content origin => .submit (hub.draft now scope path content origin).1
  | .resolve id resolution => .resolve id resolution
  | .flush => .flush
  | .status data => .broadcast (.make now .status data)
  | .heartbeat => .heartbeat

/-- The hub that gets the request: it has drawn the id of a document by then. -/
def prepared (hub : Hub) : Call → Hub
  | .publish _ _ _ _ => { hub with ids := hub.ids.draw.2 }
  | .resolve _ _ | .flush | .status _ | .heartbeat => hub

def apply (now : Timestamp) (hub : Hub) (call : Call) : Hub :=
  (call.request now hub).apply now (call.prepared hub)

end Call

def replay (hub : Hub) : List (Timestamp × Call) → Hub
  | [] => hub
  | (now, call) :: rest => replay (call.apply now hub) rest

/-- The revision that a request hands over, and the conflict that it goes into if it does not enter the queue. -/
def Request.handedOver? (now : Timestamp) (hub : Hub) : Request → Option (Revision × Option Uuid)
  | .submit revision => some (revision, (hub.submit now revision).1.conflict?)
  | .resolve id resolution => (hub.resolve now id resolution).1.toOption.map (·, none)
  | .register _ | .deregister _ | .flush | .broadcast _ | .heartbeat => none

def handedOver (hub : Hub) : List (Timestamp × Call) → List (Revision × Option Uuid)
  | [] => []
  | (now, call) :: rest =>
    ((call.request now hub).handedOver? now (call.prepared hub)).toList ++ handedOver (call.apply now hub) rest

def queued? : Revision × Option Uuid → Option Revision
  | (revision, none) => some revision
  | (_, some _) => none

theorem replay_append (hub : Hub) (first second : List (Timestamp × Call)) :
    hub.replay (first ++ second) = (hub.replay first).replay second := by
  induction first generalizing hub with
  | nil => rfl
  | cons entry rest ih => exact ih _

theorem handedOver_append (hub : Hub) (first second : List (Timestamp × Call)) :
    hub.handedOver (first ++ second) = hub.handedOver first ++ (hub.replay first).handedOver second := by
  induction first generalizing hub with
  | nil => rfl
  | cons entry rest ih =>
    rw [List.cons_append, handedOver, handedOver, ih, List.append_assoc]
    rfl

/-- The second hub comes from the first by calls, and these of them were made by hand. -/
def Gets (byHand : List Call) (before after : Hub) : Prop :=
  ∃ calls, after = before.replay calls ∧ (calls.map (·.2)).filter (·.byHand) = byHand

theorem Gets.refl (hub : Hub) : Gets [] hub hub :=
  ⟨[], rfl, rfl⟩

theorem Gets.trans {first second third : Hub} {some more : List Call} (one : Gets some first second)
    (two : Gets more second third) : Gets (some ++ more) first third := by
  obtain ⟨calls, rfl, rfl⟩ := one
  obtain ⟨others, rfl, rfl⟩ := two
  exact ⟨calls ++ others, (replay_append first calls others).symm, by simp⟩

theorem Gets.call (now : Timestamp) (hub : Hub) (call : Call) : Gets ([call].filter (·.byHand)) hub (call.apply now hub) :=
  ⟨[(now, call)], rfl, rfl⟩

/-- What is accepted into the queue is what is handed over and goes into no conflict. -/
theorem accepted_handedOver (now : Timestamp) (hub : Hub) (request : Request) :
    (request.entries now hub).filterMap Entry.accepted? = (request.handedOver? now hub).toList.filterMap queued? := by
  cases request with
  | submit revision =>
    simp only [Request.entries, Request.handedOver?]
    cases (hub.submit now revision).1 <;> rfl
  | resolve id resolution =>
    simp only [Request.entries, Request.handedOver?]
    cases (hub.resolve now id resolution).1 <;> rfl
  | register | deregister | flush | broadcast | heartbeat => rfl

/-! ### Fates -/

/-- What a hub has in common with a register of what was handed over. -/
def Books (handed : List (Revision × Option Uuid)) (hub : Hub) : Prop :=
  ∃ compacted sent register, Kept (handed.filterMap queued?) compacted sent hub register

section
variable {handed : List (Revision × Option Uuid)} {hub : Hub}

theorem Books.call (books : hub.Books handed) (now : Timestamp) (call : Call) :
    (call.apply now hub).Books (handed ++ ((call.request now hub).handedOver? now (call.prepared hub)).toList) := by
  obtain ⟨compacted, sent, register, kept⟩ := books
  rw [Books, List.filterMap_append, ← accepted_handedOver]
  have asked {base : Hub} (kept : Kept (handed.filterMap queued?) compacted sent base register) (exchange : Exchange) :
      ∃ compacted sent register, Kept
        (handed.filterMap queued? ++ (exchange.request.entries now base).filterMap Entry.accepted?) compacted sent
        (exchange.request.apply now base) register := by
    obtain ⟨messages, next⟩ := kept.step now exchange
    exact ⟨_, _, _, next⟩
  -- Other messages than those about documents change nothing that the register knows.
  have told (message : Message) (queue : message.kind ≠ .queue) (update : message.kind ≠ .update) :
      ∃ compacted sent register, Kept (handed.filterMap queued?) compacted sent (hub.broadcast message).2 register := by
    have docket := docket_broadcast hub message
    refine ⟨_, _, _, kept.still (Publishes.broadcast hub message) ⟨rfl, ?_, rfl, ?_, by simp⟩ ?_ ?_ ?_⟩
    · simp [queue, fatedBy]
    · simp [update, fatedBy]
    · exact congrArg Docket.queue docket
    · exact congrArg Docket.dropped docket
    · exact congrArg Docket.broadcasts docket
  cases call with
  | publish scope path content origin =>
    have drawn : Kept (handed.filterMap queued?) compacted sent { hub with ids := hub.ids.draw.2 } register :=
      ⟨kept.queue, kept.sound, kept.agrees, kept.holds, kept.dropped, kept.broadcasts, kept.compactions⟩
    exact asked drawn (.submit _)
  | resolve id resolution => exact asked kept (.resolve id resolution)
  | flush => exact asked kept .flush
  | status data =>
    have still := told (.make now .status data) (by simp [Message.make]) (by simp [Message.make])
    rwa [← List.append_nil (handed.filterMap queued?)] at still
  | heartbeat =>
    have still := told (.heartbeat now hub.clientCount) (by simp [Message.heartbeat, Message.make]) (by simp [Message.heartbeat, Message.make])
    rwa [← List.append_nil (handed.filterMap queued?)] at still

theorem Books.replay (books : hub.Books handed) (calls : List (Timestamp × Call)) :
    (hub.replay calls).Books (handed ++ hub.handedOver calls) := by
  induction calls generalizing hub handed with
  | nil => simpa [Hub.handedOver, Hub.replay] using books
  | cons entry rest ih =>
    obtain ⟨now, call⟩ := entry
    have later := ih (books.call now call)
    rwa [List.append_assoc] at later

end

/-! ### Conflicts in the feed -/

def conflictEvents (hub : Hub) : List Event :=
  hub.events.toList.filter (·.isConflict)

theorem conflictEvents_eq (hub : Hub) : hub.conflictEvents = hub.notices.filter (·.isConflict) := by
  rw [conflictEvents, notices, List.filter_filter]
  congr 1
  funext event
  cases event <;> rfl

theorem mem_conflictEvents {hub : Hub} {event : Event} :
    event ∈ hub.conflictEvents ↔ event ∈ hub.events ∧ event.isConflict = true := by
  rw [conflictEvents, List.mem_filter, Array.mem_toList_iff]

theorem Publishes.conflictEvents {before after : Hub} {messages : List Message} {notices : List Event}
    (publishes : Publishes before after messages notices) :
    after.conflictEvents = before.conflictEvents ++ notices.filter (·.isConflict) := by
  rw [conflictEvents_eq, conflictEvents_eq, publishes.notices, List.filter_append]

private theorem conflicts_of_broadcasts {batch : List Revision} {notices : List Event}
    (each : List.Forall₂ (fun revision notice =>
      ∃ delivered, notice = Event.broadcast revision.id revision.path delivered) batch notices) :
    notices.filter (·.isConflict) = [] := by
  induction each with
  | nil => rfl
  | cons first _ ih =>
    obtain ⟨delivered, rfl⟩ := first
    exact ih

def Request.conflictEvents (now : Timestamp) (hub : Hub) : Request → List Event
  | .submit revision =>
    match hub.conflictOf[revision.path]?, hub.raised? now revision with
    | some id, _ => [.conflictUpdated id revision.id]
    | none, some conflict => [.conflictDetected conflict]
    | none, none => []
  | .resolve id resolution =>
    match hub.conflicts[id]? with
    | some conflict =>
      [.conflictResolved { conflict with status := .resolved resolution }
        (conflict.settle hub.ids.draw.1 now resolution)]
    | none => []
  | .register _ | .deregister _ | .flush | .broadcast _ | .heartbeat => []

section
variable (now : Timestamp) (hub : Hub)

private theorem conflictEvents_submit (revision : Revision) :
    (hub.submit now revision).2.conflictEvents =
      hub.conflictEvents ++ (Request.submit revision).conflictEvents now hub := by
  simp only [Request.conflictEvents]
  cases held : hub.conflictOf[revision.path]? with
  | some id => exact (publishes_absorbed held).conflictEvents
  | none =>
    cases found : hub.raised? now revision with
    | some conflict => exact (publishes_raised held found).conflictEvents
    | none =>
      rcases shape : (hub.pruneRecent now).enqueue revision with ⟨dropped, queued⟩
      obtain ⟨told, publishes⟩ := publishes_queued held found shape
      rw [publishes.conflictEvents]
      cases dropped <;> rfl

private theorem conflictEvents_resolve (id : Uuid) (resolution : Resolution) :
    (hub.resolve now id resolution).2.conflictEvents =
      hub.conflictEvents ++ (Request.resolve id resolution).conflictEvents now hub := by
  simp only [Request.conflictEvents]
  cases known : hub.conflicts[id]? with
  | none =>
    rw [resolve_unknown now resolution known]
    exact (List.append_nil _).symm
  | some conflict =>
    rcases shape : (hub.settle id conflict.path).enqueue (conflict.settle hub.ids.draw.1 now resolution) with ⟨dropped, queued⟩
    obtain ⟨told, publishes⟩ := publishes_settled resolution known shape
    rw [publishes.conflictEvents]
    cases dropped <;> rfl

private theorem conflictEvents_flush : (hub.flush now).2.conflictEvents = hub.conflictEvents := by
  obtain ⟨notices, publishes, each⟩ := publishes_flush hub now
  rw [publishes.conflictEvents, conflicts_of_broadcasts each, List.append_nil]

private theorem conflictEvents_broadcast (message : Message) : (hub.broadcast message).2.conflictEvents = hub.conflictEvents := by
  rw [(Publishes.broadcast hub message).conflictEvents]
  exact List.append_nil _

theorem conflictEvents_call (call : Call) :
    (call.apply now hub).conflictEvents =
      (call.prepared hub).conflictEvents ++ (call.request now hub).conflictEvents now (call.prepared hub) := by
  cases call with
  | publish => exact conflictEvents_submit now { hub with ids := hub.ids.draw.2 } _
  | resolve id resolution => exact conflictEvents_resolve now hub id resolution
  | flush => exact (conflictEvents_flush now hub).trans (List.append_nil _).symm
  | status data => exact (conflictEvents_broadcast hub _).trans (List.append_nil _).symm
  | heartbeat => exact (conflictEvents_broadcast hub _).trans (List.append_nil _).symm

end

end Hub
end FreshDocs.Sync
