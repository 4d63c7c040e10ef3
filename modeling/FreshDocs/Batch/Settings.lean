import FreshDocs.Decimal.Style
import FreshDocs.Json.Fields
import FreshDocs.Path.Basic
import FreshDocs.Text.Inspect
/-!
How changes are gathered into batches and how a batch is applied.
-/

namespace FreshDocs.Batch

structure Settings where
  /-- The quiet time, in milliseconds, that closes a batch; every change starts it again. -/
  window : Nat := 500
  /-- The longest time a batch may stay open while changes keep coming. -/
  maxWait : Nat := 5000
  /-- More changed files than this make a full regeneration. -/
  maxIncrementalFiles : Nat := 10
  /-- A larger share of changed files among the cached ones makes a full regeneration. -/
  fullThreshold : Float := 0.5
  /-- Section updates are for fewer sections than this. -/
  maxSectionUpdates : Nat := 5
  /-- The pause between two sections. -/
  sectionDelay : Nat := 100
  /-- The number of operations that are remembered. -/
  historyLimit : Nat := 100
  /-- Extensions of templates, without the dot. -/
  templateExtensions : List String :=
    ["hbs", "handlebars", "mustache", "html", "ejs", "njk", "liquid"]

namespace Settings

/-- The longest time a batch stays open: at least one quiet time. -/
def longestWait (settings : Settings) : Nat :=
  max settings.maxWait settings.window

/-- Whether a path names a template; case does not matter. -/
def isTemplate (settings : Settings) (path : String) : Bool :=
  match (Path.mk path).extension? with
  | some extension =>
    settings.templateExtensions.any fun known =>
      known.toList.map Char.toLower = extension.toList.map Char.toLower
  | none => false

def fieldNames : List String :=
  ["batch_window_ms", "max_batch_wait_ms", "max_incremental_files", "full_update_threshold",
   "max_section_updates", "section_delay_ms", "history_limit", "template_extensions"]

def read? (surplus : Bool) (value : Json) : Option Settings := do
  let fields ← Json.Fields.read? fieldNames surplus value
  let base : Settings := {}
  let window ← fields.getD? "batch_window_ms" Json.natural? base.window
  let maxWait ← fields.getD? "max_batch_wait_ms" Json.natural? base.maxWait
  let maxIncrementalFiles ←
    fields.getD? "max_incremental_files" Json.natural? base.maxIncrementalFiles
  let fullThreshold ← fields.getD? "full_update_threshold" Json.real? base.fullThreshold
  let maxSectionUpdates ← fields.getD? "max_section_updates" Json.natural? base.maxSectionUpdates
  let sectionDelay ← fields.getD? "section_delay_ms" Json.natural? base.sectionDelay
  let historyLimit ← fields.getD? "history_limit" Json.natural? base.historyLimit
  let templateExtensions ←
    fields.getD? "template_extensions" (Json.list? Json.string?) base.templateExtensions
  return {
    window, maxWait, maxIncrementalFiles, fullThreshold, maxSectionUpdates, sectionDelay
    historyLimit, templateExtensions }

instance : ToJson Settings where
  toJson settings := .object
    [("batch_window_ms", toJson settings.window), ("max_batch_wait_ms", toJson settings.maxWait),
     ("max_incremental_files", toJson settings.maxIncrementalFiles),
     ("full_update_threshold", toJson settings.fullThreshold),
     ("max_section_updates", toJson settings.maxSectionUpdates),
     ("section_delay_ms", toJson settings.sectionDelay),
     ("history_limit", toJson settings.historyLimit),
     ("template_extensions", toJson settings.templateExtensions)]

def inspect (settings : Settings) : String :=
  Text.inspectRecord "SchedulerConfig"
    [("batch_window_ms", toString settings.window),
     ("max_batch_wait_ms", toString settings.maxWait),
     ("max_incremental_files", toString settings.maxIncrementalFiles),
     ("full_update_threshold", Decimal.Style.inspection.render settings.fullThreshold),
     ("max_section_updates", toString settings.maxSectionUpdates),
     ("section_delay_ms", toString settings.sectionDelay),
     ("history_limit", toString settings.historyLimit),
     ("template_extensions",
       Text.inspectList (settings.templateExtensions.map Text.inspect))] true

end Settings
end FreshDocs.Batch
