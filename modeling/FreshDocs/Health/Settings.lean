import FreshDocs.Decimal.Style
import FreshDocs.Json.Fields
import FreshDocs.Text.Inspect
/-!
From which value on a figure is worth a warning, or critical; and how often samples are taken.
-/

namespace FreshDocs.Health

/-- The two levels of a figure. -/
structure Level where
  warning : Float
  critical : Float

structure Thresholds where
  /-- Hit rates below are findings. -/
  hitRate : Level := ⟨0.7, 0.4⟩
  /-- The number of reads before the hit rate is judged. -/
  minLookups : Nat := 20
  /-- Shares of memory in use at or above are findings. -/
  memory : Level := ⟨0.8, 0.95⟩
  /-- Shares of successful operations below are findings. -/
  successRate : Level := ⟨0.95, 0.8⟩
  /-- Average durations at or above, in milliseconds, are findings. -/
  latency : Level := ⟨1000.0, 5000.0⟩
  /-- Shares of the queue in use at or above are findings. -/
  queue : Level := ⟨0.5, 0.9⟩

namespace Thresholds

def fieldNames : List String :=
  ["hit_rate_warning", "hit_rate_critical", "min_lookups", "memory_warning", "memory_critical",
   "success_rate_warning", "success_rate_critical", "latency_warning_ms", "latency_critical_ms",
   "queue_warning", "queue_critical"]

def read? (surplus : Bool) (value : Json) : Option Thresholds := do
  let fields ← Json.Fields.read? fieldNames surplus value
  let level? (warning critical : String) (default : Level) : Option Level := do
    return ⟨← fields.getD? warning Json.real? default.warning,
      ← fields.getD? critical Json.real? default.critical⟩
  let base : Thresholds := {}
  return {
    hitRate := ← level? "hit_rate_warning" "hit_rate_critical" base.hitRate
    minLookups := ← fields.getD? "min_lookups" Json.natural? base.minLookups
    memory := ← level? "memory_warning" "memory_critical" base.memory
    successRate := ← level? "success_rate_warning" "success_rate_critical" base.successRate
    latency := ← level? "latency_warning_ms" "latency_critical_ms" base.latency
    queue := ← level? "queue_warning" "queue_critical" base.queue }

/-- The values of all fields, in order, each either a rate or a number of reads. -/
def values (thresholds : Thresholds) : List (Float ⊕ Nat) :=
  [.inl thresholds.hitRate.warning, .inl thresholds.hitRate.critical, .inr thresholds.minLookups,
   .inl thresholds.memory.warning, .inl thresholds.memory.critical,
   .inl thresholds.successRate.warning, .inl thresholds.successRate.critical,
   .inl thresholds.latency.warning, .inl thresholds.latency.critical,
   .inl thresholds.queue.warning, .inl thresholds.queue.critical]

instance : ToJson Thresholds where
  toJson thresholds := .object <| fieldNames.zip <| thresholds.values.map fun
    | .inl rate => toJson rate
    | .inr count => toJson count

def inspect (thresholds : Thresholds) : String :=
  Text.inspectRecord "HealthThresholds" (fieldNames.zip <| thresholds.values.map fun
    | .inl rate => Decimal.Style.inspection.render rate
    | .inr count => toString count) true

end Thresholds

structure Settings where
  /-- Milliseconds between two samples. -/
  interval : Nat := 60000
  /-- The number of samples kept. -/
  retained : Nat := 1440
  thresholds : Thresholds := {}

namespace Settings

def fieldNames : List String := ["interval_ms", "retained_samples", "thresholds"]

def read? (surplus : Bool) (value : Json) : Option Settings := do
  let fields ← Json.Fields.read? fieldNames surplus value
  let base : Settings := {}
  return {
    interval := ← fields.getD? "interval_ms" Json.natural? base.interval
    retained := ← fields.getD? "retained_samples" Json.natural? base.retained
    thresholds := ← fields.getD? "thresholds" (Thresholds.read? surplus) base.thresholds }

instance : ToJson Settings where
  toJson settings := .object
    [("interval_ms", toJson settings.interval), ("retained_samples", toJson settings.retained),
     ("thresholds", toJson settings.thresholds)]

def inspect (settings : Settings) : String :=
  Text.inspectRecord "HealthConfig"
    [("interval_ms", toString settings.interval),
     ("retained_samples", toString settings.retained),
     ("thresholds", settings.thresholds.inspect)] true

end Settings
end FreshDocs.Health
