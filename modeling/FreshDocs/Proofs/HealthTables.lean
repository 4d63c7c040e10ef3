import FreshDocs.Health.Monitor
import FreshDocs.Proofs.TableTexts
import Std.Data.String.ToNat

/-! The samples of a monitor as a table. Once there is a sample, the table is the line of column names and one record a
sample, and from a record the figures of its sample are read by the names of the columns. Without samples there is no
line of names either. -/

namespace FreshDocs.Health

def Status.ofName? (text : String) : Option Status :=
  [excellent, good, warning, critical].find? (·.name = text)

private theorem Status.ofName?_name (status : Status) : ofName? status.name = some status := by
  cases status <;> rfl

/-- What a record tells of its sample in whole numbers and words. -/
structure Figures where
  status : Status
  memory : Nat
  memoryLimit : Nat
  analyses : Nat
  evictions : Nat
  operations : Nat
  queueDepth : Nat
  pendingConflicts : Nat
  clients : Nat
  findings : String

namespace Figures

def ofSample (sample : Sample) : Figures where
  status := sample.status
  memory := sample.memory
  memoryLimit := sample.memoryLimit
  analyses := sample.inputs.analyses.entryCount
  evictions := Sample.total (·.evictions) sample.inputs
  operations := sample.updates.total
  queueDepth := sample.sync.queueDepth
  pendingConflicts := sample.sync.pendingConflicts
  clients := sample.sync.clients
  findings := String.intercalate "; " (sample.findings.map (·.message))

def field? (header texts : List String) (name : String) : Option String :=
  ((header.zip texts).find? (·.1 = name)).map (·.2)

def read? (header texts : List String) : Option Figures := do
  let number (name : String) : Option Nat := (field? header texts name).bind String.toNat?
  return {
    status := ← (field? header texts "status").bind Status.ofName?
    memory := ← number "memory_bytes"
    memoryLimit := ← number "memory_limit_bytes"
    analyses := ← number "cached_analyses"
    evictions := ← number "evictions"
    operations := ← number "operations"
    queueDepth := ← number "queue_depth"
    pendingConflicts := ← number "pending_conflicts"
    clients := ← number "clients"
    findings := ← field? header texts "findings" }

private theorem read?_row (sample : Sample) : read? Sample.columns sample.row = some (ofSample sample) := by
  simp [read?, field?, Sample.columns, Sample.row, ofSample, Status.ofName?_name, Nat.toNat?_repr]

end Figures

namespace Monitor

private theorem exportTable_of_empty {monitor : Monitor} (none : monitor.samples = []) : monitor.exportTable = "" := by
  rw [exportTable, none]
  rfl

private theorem read?_exportTable {monitor : Monitor} (some : monitor.samples ≠ []) :
    Csv.read? monitor.exportTable = .some (Sample.columns :: monitor.samples.map Sample.row) := by
  have filled : ∀ texts ∈ Sample.columns :: monitor.samples.map Sample.row, texts ≠ [] := by
    refine List.forall_mem_cons.mpr ⟨List.cons_ne_nil _ _, fun texts listed => ?_⟩
    obtain ⟨sample, -, rfl⟩ := List.mem_map.mp listed
    exact List.cons_ne_nil _ _
  rw [exportTable, if_neg (by simpa using some)]
  exact Csv.read?_table filled

/-- The table of a monitor has the column names and then a record for each sample, oldest first, if and only if there is
a sample; without one the text is empty. All records have eighteen fields, and the figures of each sample are read from
its record, the findings as their messages with a semicolon between any two. -/
theorem exportTable_reads_iff (monitor : Monitor) :
    (Csv.read? monitor.exportTable = some (Sample.columns :: monitor.samples.map Sample.row) ↔ monitor.samples ≠ []) ∧
    (monitor.exportTable = "" ↔ monitor.samples = []) ∧
    Sample.columns.length = 18 ∧
    ∀ sample : Sample, sample.row.length = 18 ∧
      Figures.read? Sample.columns sample.row = some (Figures.ofSample sample) := by
  have blank : Csv.read? "" = some [] := rfl
  refine ⟨⟨?_, read?_exportTable⟩, ⟨?_, exportTable_of_empty⟩, rfl, fun sample => ⟨rfl, Figures.read?_row sample⟩⟩
  · intro read none
    rw [exportTable_of_empty none, blank] at read
    cases read
  · intro text
    by_contra some
    have read := read?_exportTable some
    rw [text, blank] at read
    cases read

/-- A monitor that has not sampled yet shows no column names. -/
theorem unsampled_exportTable_bare : Csv.read? ({ settings := {} } : Monitor).exportTable ≠ some [Sample.columns] := by
  intro read
  have blank : Csv.read? ({ settings := {} } : Monitor).exportTable = some [] := rfl
  rw [blank] at read
  cases read

end Monitor
end FreshDocs.Health
