import FreshDocs.Json.Fields
/-!
How documents are passed on to clients.
-/

namespace FreshDocs.Sync

structure Settings where
  /-- Revisions kept before the oldest is dropped. -/
  capacity : Nat := 100
  /-- Milliseconds between two flushes. -/
  flushInterval : Nat := 1000
  /-- Milliseconds between two heartbeats. -/
  heartbeatInterval : Nat := 30000
  /-- Generated and edited content of one document conflict when they are no further apart, in
  milliseconds. -/
  conflictWindow : Nat := 2000
  deriving DecidableEq

namespace Settings

def fieldNames : List String :=
  ["queue_capacity", "flush_interval_ms", "heartbeat_interval_ms", "conflict_window_ms"]

def read? (surplus : Bool) (value : Json) : Option Settings := do
  let fields ← Json.Fields.read? fieldNames surplus value
  let base : Settings := {}
  let capacity ← fields.getD? "queue_capacity" Json.natural? base.capacity
  let flushInterval ← fields.getD? "flush_interval_ms" Json.natural? base.flushInterval
  let heartbeatInterval ← fields.getD? "heartbeat_interval_ms" Json.natural? base.heartbeatInterval
  let conflictWindow ← fields.getD? "conflict_window_ms" Json.natural? base.conflictWindow
  return { capacity, flushInterval, heartbeatInterval, conflictWindow }

instance : ToJson Settings where
  toJson settings := .object
    [("queue_capacity", toJson settings.capacity),
     ("flush_interval_ms", toJson settings.flushInterval),
     ("heartbeat_interval_ms", toJson settings.heartbeatInterval),
     ("conflict_window_ms", toJson settings.conflictWindow)]

end Settings
end FreshDocs.Sync
