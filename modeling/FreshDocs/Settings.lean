import FreshDocs.Artifacts.Cache
import FreshDocs.Artifacts.Snapshots
import FreshDocs.Batch.Settings
import FreshDocs.Health.Settings
import FreshDocs.Sync.Settings
import FreshDocs.Toml.Reader
/-!
The settings of an engine: one table for each component, all of them optional. What is not given
has its default, and what is given must be usable.
-/

namespace FreshDocs

/-- Which files belong to a project, and where its documents go. -/
structure ProjectSettings where
  outputDirectory : String := "docs"
  ignored : List String := [".git", "target", "node_modules"]
  hashConcurrency : Nat := 16
  deriving DecidableEq

namespace ProjectSettings

def fieldNames : List String := ["output_dir", "ignore", "hash_concurrency"]

def read? (surplus : Bool) (value : Json) : Option ProjectSettings := do
  let fields ← Json.Fields.read? fieldNames surplus value
  let base : ProjectSettings := {}
  return {
    outputDirectory := ← fields.getD? "output_dir" Json.string? base.outputDirectory
    ignored := ← fields.getD? "ignore" (Json.list? Json.string?) base.ignored
    hashConcurrency := ← fields.getD? "hash_concurrency" Json.natural? base.hashConcurrency }

instance : ToJson ProjectSettings where
  toJson settings := .object
    [("output_dir", toJson settings.outputDirectory), ("ignore", toJson settings.ignored),
     ("hash_concurrency", toJson settings.hashConcurrency)]

end ProjectSettings

/-- Limits of all stores. -/
structure StoreSettings where
  artifacts : Artifacts.Limits := {}
  snapshots : Store.Limits := Snapshots.defaultLimits
  deriving DecidableEq

namespace StoreSettings

def fieldNames : List String := ["analyses", "templates", "snapshots"]

/-- Reads limits. A store that is not mentioned keeps its own defaults; one that is mentioned
in part takes the rest from the general ones. -/
def read? (surplus : Bool) (value : Json) : Option StoreSettings := do
  let fields ← Json.Fields.read? fieldNames surplus value
  let limits? := Store.Limits.read? {} surplus
  let base : StoreSettings := {}
  return {
    artifacts := {
      analyses := ← fields.getD? "analyses" limits? base.artifacts.analyses
      templates := ← fields.getD? "templates" limits? base.artifacts.templates }
    snapshots := ← fields.getD? "snapshots" limits? base.snapshots }

instance : ToJson StoreSettings where
  toJson settings := .object
    [("analyses", toJson settings.artifacts.analyses),
     ("templates", toJson settings.artifacts.templates),
     ("snapshots", toJson settings.snapshots)]

end StoreSettings

structure Settings where
  stores : StoreSettings := {}
  batch : Batch.Settings := {}
  sync : Sync.Settings := {}
  health : Health.Settings := {}
  project : ProjectSettings := {}

namespace Settings

def fieldNames : List String := ["cache", "scheduler", "sync", "health", "project"]

def read? (surplus : Bool) (value : Json) : Option Settings := do
  let fields ← Json.Fields.read? fieldNames surplus value
  let base : Settings := {}
  return {
    stores := ← fields.getD? "cache" (StoreSettings.read? surplus) base.stores
    batch := ← fields.getD? "scheduler" (Batch.Settings.read? surplus) base.batch
    sync := ← fields.getD? "sync" (Sync.Settings.read? surplus) base.sync
    health := ← fields.getD? "health" (Health.Settings.read? surplus) base.health
    project := ← fields.getD? "project" (ProjectSettings.read? surplus) base.project }

instance : ToJson Settings where
  toJson settings := .object
    [("cache", toJson settings.stores), ("scheduler", toJson settings.batch),
     ("sync", toJson settings.sync), ("health", toJson settings.health),
     ("project", toJson settings.project)]

/-- Why there are no settings. -/
inductive Error where
  | unreadable (path : Path) (fault : Fault)
  /-- The text is no table of settings. -/
  | malformed
  /-- A field has a value that cannot be used. -/
  | invalid (field reason : String)
  deriving DecidableEq

def Error.message : Error → String
  | .unreadable path fault => s!"cannot read {path.text}: {fault.text}"
  | .malformed => "invalid TOML"
  | .invalid field reason => s!"invalid {field}: {reason}"

/-- How a text is malformed is not reported. -/
instance : ToJson Error where
  toJson error :=
    match error with
    | .unreadable .. => Json.failure "Io" error.message
    | .malformed => .object [("error", .string "Parse")]
    | .invalid .. => Json.failure "Invalid" error.message

/-- A field with what is wrong with it, if anything is. -/
abbrev Check := String × Option String

def checkLimits (field : String) (limits : Store.Limits) : Check :=
  (field,
    if limits.maxEntries = 0 ∨ limits.maxSize = 0 then some "capacity must be non-zero"
    else if limits.ttl = 0 then some "ttl_ms must be non-zero"
    else none)

def checkPositive (field : String) (value : Nat) : Check :=
  (field, if value = 0 then some "must be non-zero" else none)

def checkShare (field : String) (value : Float) : Check :=
  (field,
    if 0.0 ≤ value && value ≤ 1.0 then none
    else some (Decimal.Style.message.render value ++ " is outside [0, 1]"))

/-- A critical level that lies on the wrong side of its warning level. -/
def checkOrder (field : String) (inverted : Bool) : Check :=
  (field, if inverted then some "inverted relative to its warning level" else none)

def threshold (name : String) : String :=
  "health.thresholds." ++ name

def checkThresholds (thresholds : Health.Thresholds) : List Check :=
  [checkShare (threshold "hit_rate_warning") thresholds.hitRate.warning,
   checkShare (threshold "hit_rate_critical") thresholds.hitRate.critical,
   checkShare (threshold "memory_warning") thresholds.memory.warning,
   checkShare (threshold "memory_critical") thresholds.memory.critical,
   checkShare (threshold "success_rate_warning") thresholds.successRate.warning,
   checkShare (threshold "success_rate_critical") thresholds.successRate.critical,
   checkShare (threshold "queue_warning") thresholds.queue.warning,
   checkShare (threshold "queue_critical") thresholds.queue.critical,
   checkOrder (threshold "hit_rate_critical")
     (thresholds.hitRate.warning < thresholds.hitRate.critical),
   checkOrder (threshold "success_rate_critical")
     (thresholds.successRate.warning < thresholds.successRate.critical),
   checkOrder (threshold "memory_critical")
     (thresholds.memory.critical < thresholds.memory.warning),
   checkOrder (threshold "queue_critical") (thresholds.queue.critical < thresholds.queue.warning),
   checkOrder (threshold "latency_critical_ms")
     (thresholds.latency.critical < thresholds.latency.warning)]

def checks (settings : Settings) : List Check :=
  [checkLimits "cache.analyses" settings.stores.artifacts.analyses,
   checkLimits "cache.templates" settings.stores.artifacts.templates,
   checkLimits "cache.snapshots" settings.stores.snapshots,
   checkPositive "scheduler.batch_window_ms" settings.batch.window,
   checkPositive "scheduler.history_limit" settings.batch.historyLimit,
   checkShare "scheduler.full_update_threshold" settings.batch.fullThreshold,
   checkPositive "sync.queue_capacity" settings.sync.capacity,
   checkPositive "sync.flush_interval_ms" settings.sync.flushInterval,
   checkPositive "sync.heartbeat_interval_ms" settings.sync.heartbeatInterval,
   checkPositive "health.interval_ms" settings.health.interval,
   checkPositive "health.retained_samples" settings.health.retained] ++
  checkThresholds settings.health.thresholds ++
  [checkPositive "project.hash_concurrency" settings.project.hashConcurrency]

/-- Accepts settings if every field can be used; otherwise the first that cannot is named. -/
def validate (settings : Settings) : Except Error Unit :=
  match settings.checks.findSome? fun (field, fault) => fault.map (field, ·) with
  | some (field, reason) => .error (.invalid field reason)
  | none => .ok ()

def parse (text : String) : Except Error Settings :=
  match (Toml.parse? text).bind (read? true) with
  | none => .error .malformed
  | some settings => settings.validate.map fun () => settings

def load (files : Files) (path : Path) : Except Error Settings :=
  match files.readText path with
  | .error fault => .error (.unreadable path fault)
  | .ok text => parse text

end Settings
end FreshDocs
