import FreshDocs.Sync.Client
import FreshDocs.Sync.Conflict
import FreshDocs.Sync.Settings
import FreshDocs.Time.Timestamp
import Std.Data.ExtTreeMap
/-!
The hub between those who make documents and the clients who show them. Revisions wait in a
queue until a flush passes on the latest of each document. Generated and edited content that
come close together make a conflict, and as long as it is pending nothing is passed on for its
document: newer content goes into the conflict.
-/

namespace FreshDocs.Sync

/-- What the hub publishes about itself. Clients are known by number, in the order in which they
registered. -/
inductive Event where
  | clientRegistered (client : Nat)
  | clientDisconnected (client : Nat) (reason : String)
  | queued (id : Uuid) (path : String)
  | dropped (revision : Revision)
  | conflictDetected (conflict : Conflict)
  | conflictUpdated (conflict revision : Uuid)
  | conflictResolved (conflict : Conflict) (revision : Revision)
  | broadcast (id : Uuid) (path : String) (delivered : Nat)

/-- An event as clients of the hub's feed see it: its name, and what it is about. -/
instance : ToJson Event where
  toJson event :=
    let named (name : String) (members : List (String × Json)) : Json :=
      .object (("event", .string name) :: members)
    match event with
    | .clientRegistered client => named "client_registered" [("client", toJson client)]
    | .clientDisconnected client reason =>
      named "client_disconnected" [("client", toJson client), ("reason", toJson reason)]
    | .queued id path => named "queued" [("id", toJson id), ("path", toJson path)]
    | .dropped revision => named "dropped" [("update", toJson revision)]
    | .conflictDetected conflict => named "conflict_detected" [("conflict", toJson conflict)]
    | .conflictUpdated conflict revision =>
      named "conflict_updated" [("conflict_id", toJson conflict), ("update_id", toJson revision)]
    | .conflictResolved conflict revision =>
      named "conflict_resolved" [("conflict", toJson conflict), ("update", toJson revision)]
    | .broadcast id path delivered =>
      named "broadcast" [("id", toJson id), ("path", toJson path), ("delivered", toJson delivered)]

structure Counters where
  broadcasts : Nat := 0
  deliveries : Nat := 0
  dropped : Nat := 0
  conflictsRaised : Nat := 0
  conflictsResolved : Nat := 0
  disconnects : Nat := 0
  deriving DecidableEq

structure Hub where
  settings : Settings
  /-- Every client that ever registered. -/
  clients : Array Client := #[]
  /-- Revisions to be passed on, oldest first. -/
  queue : List Revision := []
  /-- The pending conflicts. -/
  conflicts : Std.ExtTreeMap Uuid Conflict := ∅
  /-- The pending conflict of a document. -/
  conflictOf : Std.ExtTreeMap String Uuid := ∅
  /-- What was last passed on for a document, while it can still conflict. -/
  recent : Std.ExtTreeMap String Revision := ∅
  counters : Counters := {}
  /-- All that was published, oldest first. -/
  events : Array Event := #[]
  ids : Uuid.Supply := { space := 1 }

/-- What became of a revision that was handed in. -/
inductive QueueOutcome where
  | queued (dropped : Option Uuid)
  | conflict (id : Uuid)
  | conflictUpdated (id : Uuid)
  deriving DecidableEq

instance : ToJson QueueOutcome where
  toJson
    | .queued dropped => .object [("queued", .bool true), ("dropped", toJson dropped)]
    | .conflict id => .object [("conflict", toJson id)]
    | .conflictUpdated id => .object [("conflict_updated", toJson id)]

/-- What a flush did. -/
structure FlushReport where
  broadcast : Nat := 0
  compacted : Nat := 0
  delivered : Nat := 0
  deriving DecidableEq

inductive Error where
  | unknownConflict (id : Uuid)
  deriving DecidableEq

def Error.message : Error → String
  | .unknownConflict id => s!"unknown conflict: {id.toText}"

/-- Whether the error speaks of something that does not exist. -/
def Error.isNotFound : Error → Bool
  | .unknownConflict _ => true

instance : ToJson Error where
  toJson error := .object
    [("error", .string "UnknownConflict"), ("message", toJson error.message),
     ("not_found", toJson error.isNotFound)]

structure Stats where
  clients : Nat := 0
  queueDepth : Nat := 0
  queueCapacity : Nat := 0
  pendingConflicts : Nat := 0
  counters : Counters := {}
  deriving DecidableEq

def Stats.fieldNames : List String :=
  ["clients", "queue_depth", "queue_capacity", "pending_conflicts"]

/-- Reads the figures that say how full a hub is; those that are not given are zero. -/
def Stats.read? (value : Json) : Option Stats := do
  let fields ← Json.Fields.read? fieldNames true value
  let natural (name : String) := fields.getD? name Json.natural? 0
  return {
    clients := ← natural "clients"
    queueDepth := ← natural "queue_depth"
    queueCapacity := ← natural "queue_capacity"
    pendingConflicts := ← natural "pending_conflicts" }

instance : ToJson Stats where
  toJson stats := .object
    [("clients", toJson stats.clients), ("queue_depth", toJson stats.queueDepth),
     ("queue_capacity", toJson stats.queueCapacity),
     ("pending_conflicts", toJson stats.pendingConflicts),
     ("broadcasts", toJson stats.counters.broadcasts),
     ("deliveries", toJson stats.counters.deliveries), ("dropped", toJson stats.counters.dropped),
     ("conflicts_raised", toJson stats.counters.conflictsRaised),
     ("conflicts_resolved", toJson stats.counters.conflictsResolved),
     ("disconnects", toJson stats.counters.disconnects)]

instance : ToJson FlushReport where
  toJson report := .object
    [("broadcast", toJson report.broadcast), ("compacted", toJson report.compacted),
     ("delivered", toJson report.delivered)]

namespace Hub

def emit (hub : Hub) (event : Event) : Hub :=
  { hub with events := hub.events.push event }

def register (hub : Hub) (transport : Transport) : Nat × Hub :=
  let number := hub.clients.size
  (number, { hub with clients := hub.clients.push { transport } }.emit (.clientRegistered number))

def isConnected (hub : Hub) (client : Nat) : Bool :=
  hub.clients[client]?.any (·.connected)

def disconnect (hub : Hub) (client : Nat) (reason : String) : Hub :=
  { hub with clients := hub.clients.modify client ({ · with connected := false }) }.emit
    (.clientDisconnected client reason)

/-- Removes a client at its own wish, and says whether it was registered. -/
def deregister (hub : Hub) (client : Nat) : Bool × Hub :=
  if hub.isConnected client then (true, hub.disconnect client "deregistered") else (false, hub)

def clientCount (hub : Hub) : Nat :=
  hub.clients.countP (·.connected)

def reroute (hub : Hub) (client : Nat) (transport : Transport) : Hub :=
  { hub with clients := hub.clients.modify client ({ · with transport }) }

/-- Gives a message to the clients of a list: how many it reached, whom it did not reach and
why, and the clients afterwards. `number` is that of the first. -/
def deliver (message : Message) (number : Nat) :
    List Client → Nat × List (Nat × TransportError) × List Client
  | [] => (0, [], [])
  | client :: rest =>
    let (delivered, failed, others) := deliver message (number + 1) rest
    if client.connected then
      match client.send message with
      | (none, client) => (delivered + 1, failed, client :: others)
      | (some error, client) => (delivered, (number, error) :: failed, client :: others)
    else (delivered, failed, client :: others)

/-- Sends a message to every client. Those it does not reach are removed afterwards. -/
def broadcast (hub : Hub) (message : Message) : Nat × Hub :=
  let (delivered, failed, clients) := deliver message 0 hub.clients.toList
  let hub := failed.foldl (fun hub (client, error) => hub.disconnect client error.message)
    { hub with clients := clients.toArray }
  (delivered,
    { hub with
      counters :=
        { hub.counters with
          deliveries := hub.counters.deliveries + delivered
          disconnects := hub.counters.disconnects + failed.length } })

def heartbeat (hub : Hub) (now : Timestamp) : Nat × Hub :=
  hub.broadcast (.heartbeat now hub.clientCount)

def broadcastStatus (hub : Hub) (now : Timestamp) (data : Json) : Nat × Hub :=
  hub.broadcast (.make now .status data)

/-- Whether two revisions compete for one document. -/
def competes (window : Nat) (revision candidate : Revision) : Bool :=
  candidate.path = revision.path && candidate.origin = revision.origin.other &&
    decide (candidate.timestamp.gapMillis revision.timestamp ≤ window)

/-- The latest revision that competes with a new one: a queued one before one that was passed
on. -/
def competing? (hub : Hub) (revision : Revision) : Option Revision :=
  let competes := competes hub.settings.conflictWindow revision
  match hub.queue.reverse.find? competes with
  | some queued => some queued
  | none => hub.recent[revision.path]?.filter competes

/-- Forgets what was passed on too long ago to conflict. -/
def pruneRecent (hub : Hub) (now : Timestamp) : Hub :=
  { hub with
    recent := hub.recent.filter fun _ revision =>
      decide (revision.timestamp.gapMillis now ≤ hub.settings.conflictWindow) }

/-- The number of revisions a queue holds: at least one. -/
def queueLimit (hub : Hub) : Nat :=
  max hub.settings.capacity 1

def enqueue (hub : Hub) (revision : Revision) : Option Revision × Hub :=
  match hub.queue ++ [revision] with
  | oldest :: rest =>
    if hub.queueLimit < rest.length + 1 then
      (some oldest,
        { hub with
          queue := rest
          counters := { hub.counters with dropped := hub.counters.dropped + 1 } })
    else (none, { hub with queue := oldest :: rest })
  | [] => (none, hub)

/-- Tells clients and watchers of a revision that was dropped. -/
def reportDrop (hub : Hub) (now : Timestamp) (dropped : Revision) : Hub :=
  let data : Json := .object
    [("event", .string "overflow"), ("dropped", toJson dropped.id), ("path", toJson dropped.path),
     ("depth", toJson hub.queue.length), ("capacity", toJson hub.settings.capacity)]
  (hub.broadcast (.make now .queue data)).2.emit (.dropped dropped)

/-- Records a conflict and takes its document out of queue and memory. -/
def raise (hub : Hub) (conflict : Conflict) : Hub :=
  { hub with
    queue := hub.queue.filter (·.path ≠ conflict.path)
    recent := hub.recent.erase conflict.path
    conflictOf := hub.conflictOf.insert conflict.path conflict.id
    conflicts := hub.conflicts.insert conflict.id conflict
    counters := { hub.counters with conflictsRaised := hub.counters.conflictsRaised + 1 } }

/-- Hands in a revision: it goes into a pending conflict of its document, makes a conflict, or
is queued. -/
def submit (hub : Hub) (now : Timestamp) (revision : Revision) : QueueOutcome × Hub :=
  match hub.conflictOf[revision.path]? with
  | some id =>
    let conflicts := hub.conflicts.modify id (·.absorb revision)
    (.conflictUpdated id, { hub with conflicts }.emit (.conflictUpdated id revision.id))
  | none =>
    let hub := hub.pruneRecent now
    let (id, ids) := hub.ids.draw
    match (hub.competing? revision).bind (Conflict.between? id now · revision) with
    | some conflict =>
      let hub := { hub with ids }.raise conflict
      let hub := (hub.broadcast (.make now .conflict (toJson conflict))).2
      (.conflict id, hub.emit (.conflictDetected conflict))
    | none =>
      let (dropped, hub) := hub.enqueue revision
      let hub := hub.emit (.queued revision.id revision.path)
      match dropped with
      | some oldest => (.queued (some oldest.id), hub.reportDrop now oldest)
      | none => (.queued none, hub)

def draft (hub : Hub) (now : Timestamp) (scope : Scope) (path content : String)
    (origin : Origin) : Revision × Hub :=
  let (id, ids) := hub.ids.draw
  (Revision.make id now scope path content origin, { hub with ids })

/-- Settles a pending conflict and queues the revision that settles it. -/
def resolve (hub : Hub) (now : Timestamp) (id : Uuid) (resolution : Resolution) :
    Except Error Revision × Hub :=
  match hub.conflicts[id]? with
  | none => (.error (.unknownConflict id), hub)
  | some conflict =>
    let (fresh, ids) := hub.ids.draw
    let revision := conflict.settle fresh now resolution
    let hub :=
      { hub with
        ids
        conflicts := hub.conflicts.erase id
        conflictOf := hub.conflictOf.erase conflict.path
        counters := { hub.counters with conflictsResolved := hub.counters.conflictsResolved + 1 } }
    let (dropped, hub) := hub.enqueue revision
    let hub :=
      match dropped with
      | some oldest => hub.reportDrop now oldest
      | none => hub
    (.ok revision,
      hub.emit (.conflictResolved { conflict with status := .resolved resolution } revision))

/-- The latest revision of each document, where that one stands. -/
def compact : List Revision → List Revision
  | [] => []
  | revision :: rest =>
    if rest.any (·.path = revision.path) then compact rest else revision :: compact rest

/-- Passes revisions on one after the other, and adds up the deliveries. -/
def passOn (now : Timestamp) : List Revision → Hub → Nat × Hub
  | [], hub => (0, hub)
  | revision :: rest, hub =>
    let (delivered, hub) := hub.broadcast (.ofRevision now revision)
    let hub := hub.emit (.broadcast revision.id revision.path delivered)
    let (others, hub) := passOn now rest hub
    (delivered + others, hub)

/-- Empties the queue and passes on the latest revision of each document. -/
def flush (hub : Hub) (now : Timestamp) : FlushReport × Hub :=
  if hub.queue.isEmpty then ({}, hub)
  else
    let batch := compact hub.queue
    let drained :=
      { hub with
        queue := []
        recent := batch.foldl (fun recent revision => recent.insert revision.path revision)
          hub.recent
        counters := { hub.counters with broadcasts := hub.counters.broadcasts + batch.length } }
    let (delivered, flushed) := passOn now batch drained
    ({ broadcast := batch.length, compacted := hub.queue.length - batch.length, delivered }, flushed)

/-- The pending conflicts, oldest first, and by path where they were raised together. -/
def pending (hub : Hub) : List Conflict :=
  hub.conflicts.values.mergeSort fun a b =>
    a.detectedAt < b.detectedAt || (a.detectedAt = b.detectedAt && a.path ≤ b.path)

def conflict? (hub : Hub) (id : Uuid) : Option Conflict :=
  hub.conflicts[id]?

def conflictFor? (hub : Hub) (path : String) : Option Conflict :=
  hub.conflictOf[path]?.bind hub.conflict?

def stats (hub : Hub) : Stats :=
  { clients := hub.clientCount
    queueDepth := hub.queue.length
    queueCapacity := hub.settings.capacity
    pendingConflicts := hub.conflicts.size
    counters := hub.counters }

end Hub
end FreshDocs.Sync
