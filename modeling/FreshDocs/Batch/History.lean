import FreshDocs.Batch.Strategy
import FreshDocs.Files.Stamp
import FreshDocs.Uuid
/-!
Records of the batches that were applied, the newest last, and what they add up to.
-/

namespace FreshDocs.Batch

/-- The record of one batch. -/
structure Operation where
  id : Uuid
  strategy : Strategy
  /-- The changed paths, ascending. -/
  files : List String
  /-- The ids of the sections that the changes affect, ascending. -/
  sections : List String
  startedAt : Timestamp
  completedAt : Timestamp
  /-- In whole milliseconds. -/
  duration : Nat
  /-- Why the batch failed, if it did. -/
  failure : Option String

namespace Operation

def succeeded (operation : Operation) : Bool :=
  operation.failure.isNone

instance : ToJson Operation where
  toJson operation := .object
    [("id", toJson operation.id), ("type", toJson operation.strategy),
     ("affected_files", toJson operation.files), ("affected_sections", toJson operation.sections),
     ("started_at", toJson operation.startedAt), ("completed_at", toJson operation.completedAt),
     ("duration_ms", toJson operation.duration), ("success", toJson operation.succeeded),
     ("error", toJson operation.failure)]

end Operation

/-- The newest operations, oldest first, up to a limit. -/
structure History where
  limit : Nat
  operations : List Operation := []

/-- What a history adds up to. -/
structure History.Stats where
  total : Nat := 0
  successful : Nat := 0
  failed : Nat := 0
  successRate : Float := 1.0
  averageDuration : Float := 0.0
  byStrategy : List (Strategy × Nat) := []
  lastCompletedAt : Option Timestamp := none

namespace History

/-- A history keeps at least one operation. -/
def empty (limit : Nat) : History :=
  { limit := max 1 limit }

def push (history : History) (operation : Operation) : History :=
  let kept := history.operations.drop (history.operations.length + 1 - history.limit)
  { history with operations := kept ++ [operation] }

def recent (history : History) (count : Nat) : List Operation :=
  history.operations.reverse.take count

def length (history : History) : Nat :=
  history.operations.length

/-- The largest sum of durations that is told apart. -/
def durationLimit : Nat := UInt64.size - 1

def stats (history : History) : Stats :=
  let operations := history.operations
  let total := operations.length
  let successful := operations.countP Operation.succeeded
  let duration := min durationLimit (operations.foldl (· + ·.duration) 0)
  { total, successful
    failed := total - successful
    successRate := if total = 0 then 1.0 else Float.ofNat successful / Float.ofNat total
    averageDuration := if total = 0 then 0.0 else Float.ofNat duration / Float.ofNat total
    byStrategy := Strategy.all.filterMap fun strategy =>
      let count := operations.countP (·.strategy = strategy)
      if count = 0 then none else some (strategy, count)
    lastCompletedAt := operations.getLast?.map (·.completedAt) }

def Stats.fieldNames : List String :=
  ["total", "successful", "failed", "success_rate", "average_duration_ms"]

/-- Reads the figures that say how updates went; those that are not given are those of an empty
history. -/
def Stats.read? (value : Json) : Option Stats := do
  let fields ← Json.Fields.read? fieldNames true value
  return {
    total := ← fields.getD? "total" Json.natural? 0
    successful := ← fields.getD? "successful" Json.natural? 0
    failed := ← fields.getD? "failed" Json.natural? 0
    successRate := ← fields.getD? "success_rate" Json.real? 1.0
    averageDuration := ← fields.getD? "average_duration_ms" Json.real? 0.0 }

instance : ToJson Stats where
  toJson stats := .object
    [("total", toJson stats.total), ("successful", toJson stats.successful),
     ("failed", toJson stats.failed), ("success_rate", toJson stats.successRate),
     ("average_duration_ms", toJson stats.averageDuration),
     ("by_type", .object (stats.byStrategy.map fun (strategy, count) =>
       (strategy.name, toJson count))),
     ("last_completed_at", toJson stats.lastCompletedAt)]

end History
end FreshDocs.Batch
