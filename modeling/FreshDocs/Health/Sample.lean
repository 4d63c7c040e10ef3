import FreshDocs.Batch.History
import FreshDocs.Health.Settings
import FreshDocs.Store.Limits
import FreshDocs.Sync.Hub
/-!
Samples of the health of all components at one point in time. Figures are held against
thresholds, and what lies outside is a finding. One critical finding makes the status critical;
otherwise the number of warnings decides.
-/

namespace FreshDocs.Health

inductive Severity where
  | warning
  | critical
  deriving DecidableEq

inductive Status where
  | excellent
  | good
  | warning
  | critical
  deriving DecidableEq

inductive Metric where
  | hitRate
  | memory
  | updateSuccess
  | updateLatency
  | queueDepth
  deriving DecidableEq

namespace Severity

def name : Severity → String
  | .warning => "warning"
  | .critical => "critical"

instance : ToJson Severity := ⟨fun severity => .string severity.name⟩

def read? (value : Json) : Option Severity :=
  Json.choice? [("warning", .warning), ("critical", .critical)] value

end Severity

namespace Status

def name : Status → String
  | .excellent => "excellent"
  | .good => "good"
  | .warning => "warning"
  | .critical => "critical"

instance : ToJson Status := ⟨fun status => .string status.name⟩

/-- The status that findings of these severities make. -/
def ofSeverities (severities : List Severity) : Status :=
  if severities.contains .critical then .critical
  else
    match severities.length with
    | 0 => .excellent
    | 1 => .good
    | _ => .warning

end Status

namespace Metric

def name : Metric → String
  | .hitRate => "hit_rate"
  | .memory => "memory"
  | .updateSuccess => "update_success"
  | .updateLatency => "update_latency"
  | .queueDepth => "queue_depth"

instance : ToJson Metric := ⟨fun metric => .string metric.name⟩

def all : List Metric := [.hitRate, .memory, .updateSuccess, .updateLatency, .queueDepth]

def read? (value : Json) : Option Metric :=
  Json.choice? (all.map fun metric => (metric.name, metric)) value

/-- What to do about a finding. -/
def recommendation : Metric → String
  | .hitRate =>
    "Cache hit rate is low: raise max_entries or ttl_ms, " ++
      "or check for files invalidated on every batch"
  | .memory => "Cache memory is near its limit: raise max_size_bytes or lower ttl_ms"
  | .updateSuccess =>
    "Update operations are failing: inspect the error recorded on recent operations"
  | .updateLatency =>
    "Updates are slow: lower max_incremental_files " ++
      "or register sections for targeted regeneration"
  | .queueDepth =>
    "Sync queue is filling up: shorten flush_interval_ms or raise queue_capacity"

end Metric

/-- A figure outside its thresholds. -/
structure Finding where
  metric : Metric
  severity : Severity
  value : Float
  message : String

namespace Finding

instance : ToJson Finding where
  toJson finding := .object
    [("metric", toJson finding.metric), ("severity", toJson finding.severity),
     ("value", toJson finding.value), ("message", toJson finding.message)]

/-- The finding for a figure that should not be too small. -/
def below? (metric : Metric) (what : String) (value : Float) (level : Level) : Option Finding :=
  let make (severity : Severity) (limit : Float) : Finding :=
    { metric, severity, value
      message := s!"{what} {Decimal.toHundredths value} below {Decimal.toHundredths limit}" }
  if value < level.critical then some (make .critical level.critical)
  else if value < level.warning then some (make .warning level.warning)
  else none

/-- The finding for a figure that should not be too large. -/
def above? (metric : Metric) (what : String) (value : Float) (level : Level) : Option Finding :=
  let make (severity : Severity) (limit : Float) : Finding :=
    { metric, severity, value
      message := s!"{what} {Decimal.toHundredths value} at or above {Decimal.toHundredths limit}" }
  if level.critical ≤ value then some (make .critical level.critical)
  else if level.warning ≤ value then some (make .warning level.warning)
  else none

end Finding

/-- The figures that a sample is made from. -/
structure Inputs where
  analyses : Store.Stats := {}
  templates : Store.Stats := {}
  snapshots : Store.Stats := {}
  /-- Absent where there is no scheduler. -/
  updates : Option Batch.History.Stats := none
  /-- Absent where there is no hub. -/
  sync : Option Sync.Stats := none

namespace Inputs

def fieldNames : List String := ["analyses", "templates", "snapshots", "updates", "sync"]

def read? (value : Json) : Option Inputs := do
  let fields ← Json.Fields.read? fieldNames true value
  let store (name : String) := fields.getD? name Store.Stats.read? {}
  return {
    analyses := ← store "analyses"
    templates := ← store "templates"
    snapshots := ← store "snapshots"
    updates := ← fields.optional? "updates" Batch.History.Stats.read?
    sync := ← fields.optional? "sync" Sync.Stats.read? }

end Inputs

structure Sample where
  timestamp : Timestamp
  memory : Nat
  memoryLimit : Nat
  memoryShare : Float
  /-- Absent before the first read. -/
  hitRate : Option Float
  inputs : Inputs
  updates : Batch.History.Stats
  sync : Sync.Stats
  findings : List Finding

namespace Sample

/-- A share; nothing is a share of nothing. -/
def ratio (part whole : Nat) : Float :=
  if whole = 0 then 0.0 else Float.ofNat part / Float.ofNat whole

def stores (inputs : Inputs) : List Store.Stats :=
  [inputs.analyses, inputs.templates, inputs.snapshots]

def total (figure : Store.Stats → Nat) (inputs : Inputs) : Nat :=
  (stores inputs).foldl (· + figure ·) 0

def evaluate (now : Timestamp) (thresholds : Thresholds) (inputs : Inputs) : Sample :=
  let memory := total (·.totalSize) inputs
  let memoryLimit := total (·.maxSize) inputs
  let memoryShare := ratio memory memoryLimit
  let hits := total (·.hits) inputs
  let lookups := hits + total (·.misses) inputs
  let hitRate := if lookups = 0 then none else some (ratio hits lookups)
  let updates := inputs.updates.getD {}
  let sync := inputs.sync.getD {}
  let findings :=
    [if thresholds.minLookups ≤ lookups then
        hitRate.bind (Finding.below? .hitRate "hit rate" · thresholds.hitRate)
      else none,
     Finding.above? .memory "memory utilization" memoryShare thresholds.memory,
     if updates.total = 0 then none
      else Finding.below? .updateSuccess "update success rate" updates.successRate
        thresholds.successRate,
     if updates.total = 0 then none
      else Finding.above? .updateLatency "average update ms" updates.averageDuration
        thresholds.latency,
     if sync.queueCapacity = 0 then none
      else Finding.above? .queueDepth "queue fill" (ratio sync.queueDepth sync.queueCapacity)
        thresholds.queue]
  { timestamp := now, memory, memoryLimit, memoryShare, hitRate, inputs, updates, sync
    findings := findings.filterMap id }

def status (sample : Sample) : Status :=
  .ofSeverities (sample.findings.map (·.severity))

instance : ToJson Sample where
  toJson sample :=
    let inputs := sample.inputs
    .object
      [("timestamp", toJson sample.timestamp), ("status", toJson sample.status),
       ("memory_bytes", toJson sample.memory),
       ("memory_limit_bytes", toJson sample.memoryLimit),
       ("memory_utilization", toJson sample.memoryShare), ("hit_rate", toJson sample.hitRate),
       ("analysis_hit_rate", toJson inputs.analyses.hitRate),
       ("template_hit_rate", toJson inputs.templates.hitRate),
       ("snapshot_hit_rate", toJson inputs.snapshots.hitRate),
       ("cached_analyses", toJson inputs.analyses.entryCount),
       ("cached_templates", toJson inputs.templates.entryCount),
       ("cached_snapshots", toJson inputs.snapshots.entryCount),
       ("evictions", toJson (total (·.evictions) inputs)),
       ("operations", toJson sample.updates.total),
       ("update_success_rate", toJson sample.updates.successRate),
       ("average_update_ms", toJson sample.updates.averageDuration),
       ("queue_depth", toJson sample.sync.queueDepth),
       ("queue_capacity", toJson sample.sync.queueCapacity),
       ("pending_conflicts", toJson sample.sync.pendingConflicts),
       ("clients", toJson sample.sync.clients), ("findings", toJson sample.findings)]

def columns : List String :=
  ["timestamp", "status", "memory_bytes", "memory_limit_bytes", "memory_utilization", "hit_rate",
   "analysis_hit_rate", "template_hit_rate", "snapshot_hit_rate", "cached_analyses", "evictions",
   "operations", "update_success_rate", "average_update_ms", "queue_depth", "pending_conflicts",
   "clients", "findings"]

def row (sample : Sample) : List String :=
  let real := Decimal.Style.table.render
  let inputs := sample.inputs
  [sample.timestamp.toOffsetText, sample.status.name, toString sample.memory,
   toString sample.memoryLimit, real sample.memoryShare, (sample.hitRate.map real).getD "",
   real inputs.analyses.hitRate, real inputs.templates.hitRate, real inputs.snapshots.hitRate,
   toString inputs.analyses.entryCount, toString (total (·.evictions) inputs),
   toString sample.updates.total, real sample.updates.successRate,
   real sample.updates.averageDuration, toString sample.sync.queueDepth,
   toString sample.sync.pendingConflicts, toString sample.sync.clients,
   String.intercalate "; " (sample.findings.map (·.message))]

end Sample
end FreshDocs.Health
