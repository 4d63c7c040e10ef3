import FreshDocs.Health.Sample
import FreshDocs.Text.Csv
import FreshDocs.Time.Clockwork
/-!
A series of samples, oldest first, of which the newest are kept; and what it says about the
present state and the direction of the hit rate.
-/

namespace FreshDocs.Health

inductive Trend where
  | improving
  | stable
  | degrading
  | insufficient
  deriving DecidableEq

namespace Trend

def name : Trend → String
  | .improving => "improving"
  | .stable => "stable"
  | .degrading => "degrading"
  | .insufficient => "insufficient"

instance : ToJson Trend := ⟨fun trend => .string trend.name⟩

def mean (values : List Float) : Float :=
  values.foldl (· + ·) 0.0 / Float.ofNat values.length

/-- The later half of a series against the earlier one. -/
def ofRates (rates : List Float) : Trend :=
  if rates.length < 4 then .insufficient
  else
    let half := rates.length / 2
    let delta := mean (rates.drop half) - mean (rates.take half)
    if 0.05 < delta then .improving
    else if delta < -0.05 then .degrading
    else .stable

end Trend

structure Report where
  latest : Option Sample
  sampleCount : Nat
  trend : Trend
  recommendations : List String
  generatedAt : Timestamp

namespace Report

def status (report : Report) : Status :=
  (report.latest.map Sample.status).getD .excellent

instance : ToJson Report where
  toJson report := .object
    [("status", toJson report.status), ("latest", toJson report.latest),
     ("sample_count", toJson report.sampleCount), ("hit_rate_trend", toJson report.trend),
     ("recommendations", toJson report.recommendations),
     ("generated_at", toJson report.generatedAt)]

end Report

structure Monitor where
  settings : Settings
  samples : List Sample := []
  /-- When the next periodic sample is due, if samples are taken periodically. -/
  due : Option Timestamp := none

namespace Monitor

/-- Takes a sample, and lets the oldest go beyond the number that is kept: at least one. -/
def sample (monitor : Monitor) (now : Timestamp) (inputs : Inputs) : Sample × Monitor :=
  let sample := Sample.evaluate now monitor.settings.thresholds inputs
  let kept := max monitor.settings.retained 1
  let samples := monitor.samples.drop (monitor.samples.length + 1 - kept) ++ [sample]
  (sample, { monitor with samples })

def start (monitor : Monitor) (now : Timestamp) : Monitor :=
  { monitor with due := some now }

def stop (monitor : Monitor) : Monitor :=
  { monitor with due := none }

def sampleIfDue (monitor : Monitor) (now : Timestamp) (inputs : Inputs) : Monitor :=
  match monitor.due with
  | some due =>
    if due ≤ now then
      let taken := (monitor.sample now inputs).2
      { taken with due := some (now.addMillis (max monitor.settings.interval 1)) }
    else monitor
  | none => monitor

def latest? (monitor : Monitor) : Option Sample :=
  monitor.samples.getLast?

def trend (monitor : Monitor) : Trend :=
  .ofRates (monitor.samples.filterMap (·.hitRate))

/-- What to do about the findings of the latest sample, each thing once, and about a hit rate
that gets worse. -/
def recommendations (monitor : Monitor) : List String :=
  let findings := (monitor.latest?.map (·.findings)).getD []
  let advice := (findings.map (·.metric.recommendation)).eraseDups
  advice ++
    if monitor.trend = .degrading then
      ["Hit rate is trending down: check whether recent batches trigger full regenerations"]
    else []

def report (monitor : Monitor) (now : Timestamp) : Report :=
  { latest := monitor.latest?
    sampleCount := monitor.samples.length
    trend := monitor.trend
    recommendations := monitor.recommendations
    generatedAt := now }

def exportJson (monitor : Monitor) : String :=
  (toJson monitor.samples).pretty

/-- The series as a table. There is a line of column names as soon as there is a sample. -/
def exportTable (monitor : Monitor) : String :=
  if monitor.samples.isEmpty then ""
  else Csv.table (Sample.columns :: monitor.samples.map Sample.row)

def inspect (monitor : Monitor) : String :=
  Text.inspectRecord "CacheHealthMonitor"
    [("config", monitor.settings.inspect), ("samples", toString monitor.samples.length)] false

/-- A monitor that reads the same figures until it is told others. -/
def clockwork : Clockwork (Monitor × Inputs) where
  nextDue state := state.1.due
  settle now state := (state.1.sampleIfDue now state.2, state.2)

end Monitor
end FreshDocs.Health
