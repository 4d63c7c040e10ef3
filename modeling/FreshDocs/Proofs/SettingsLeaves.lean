import FreshDocs.Settings

/-! Settings as what stands at the ends of all ways into a document. A reader of a table answers for
a document exactly if every way that the document takes ends in a value of the right kind; what
it answers has these values, and where the document gives nothing, those of a base. -/

namespace FreshDocs

variable {ρ σ : Type}

/-- A value within a record. The way to it in a document leads through tables, by a field of each. -/
structure Leaf (ρ : Type) where
  way : List (List String × String)
  Value : Type
  read? : Json → Option Value
  value : ρ → Value

namespace Leaf

abbrev field {α : Type} (names : List String) (name : String) (read? : Json → Option α) (value : ρ → α) : Leaf ρ :=
  { way := [(names, name)], Value := α, read?, value }

abbrev within (names : List String) (name : String) (part : σ → ρ) (leaf : Leaf ρ) : Leaf σ :=
  { way := (names, name) :: leaf.way
    Value := leaf.Value
    read? := leaf.read?
    value := fun record => leaf.value (part record) }

def given? (surplus : Bool) : List (List String × String) → Json → Option (Option Json)
  | [], json => some (some json)
  | (names, name) :: way, json => do
    let fields ← Json.Fields.read? names surplus json
    match fields.find? name with
    | none => some none
    | some json => given? surplus way json

def isOpen (surplus : Bool) (way : List (List String × String)) (json : Json) : Bool :=
  (given? surplus way json).any (·.isNone)

def overwritten? (leaf : Leaf ρ) (surplus : Bool) (base : ρ) (json : Json) : Option leaf.Value := do
  match ← given? surplus leaf.way json with
  | none => some (leaf.value base)
  | some json => leaf.read? json

section
variable {names : List String} {surplus : Bool} {json : Json} {fields : Json.Fields}

theorem isOpen_eq_true {way : List (List String × String)} :
    isOpen surplus way json = true ↔ given? surplus way json = some none := by
  cases given : given? surplus way json <;> simp [isOpen, given]

theorem isOpen_eq_false {way : List (List String × String)} :
    isOpen surplus way json = false ↔ given? surplus way json ≠ some none := by
  rw [← Bool.not_eq_true, isOpen_eq_true]

theorem given?_append (surplus : Bool) (way rest : List (List String × String)) (json : Json) :
    given? surplus (way ++ rest) json =
      (given? surplus way json).bind fun given => given.elim (some none) (given? surplus rest) := by
  induction way generalizing json with
  | nil => rfl
  | cons step way ih =>
    simp only [List.cons_append, given?, Option.bind_eq_bind]
    cases Json.Fields.read? step.1 surplus json with
    | none => rfl
    | some fields =>
      simp only [Option.bind_some]
      cases fields.find? step.2 with
      | none => rfl
      | some inner => exact ih inner

theorem overwritten?_field {α : Type} (table : Json.Fields.read? names surplus json = some fields) (name : String)
    (read? : Json → Option α) (value : ρ → α) (base : ρ) :
    (field names name read? value).overwritten? surplus base json = fields.getD? name read? (value base) := by
  simp only [overwritten?, given?, table, Option.bind_eq_bind, Option.bind_some, Json.Fields.getD?]
  cases fields.find? name <;> rfl

private theorem overwritten?_within (table : Json.Fields.read? names surplus json = some fields) (name : String)
    (part : σ → ρ) (leaf : Leaf ρ) (base : σ) :
    (leaf.within names name part).overwritten? surplus base json =
      fields.getD? name (leaf.overwritten? surplus (part base)) (leaf.value (part base)) := by
  simp only [overwritten?, given?, table, Option.bind_eq_bind, Option.bind_some, Json.Fields.getD?]
  cases fields.find? name <;> rfl

/-- A base counts only where nothing is given. -/
theorem overwritten?_congr (leaf : Leaf ρ) {one two : ρ}
    (alike : given? surplus leaf.way json = some none → leaf.value one = leaf.value two) :
    leaf.overwritten? surplus one json = leaf.overwritten? surplus two json := by
  unfold overwritten?
  cases found : given? surplus leaf.way json with
  | none => rfl
  | some given =>
    cases given with
    | none => exact congrArg some (alike found)
    | some json => rfl

theorem overwritten?_of_not_given (leaf : Leaf ρ) (base : ρ) (open_end : given? surplus leaf.way json = some none) :
    leaf.overwritten? surplus base json = some (leaf.value base) := by
  rw [overwritten?, open_end]
  rfl

theorem isSome_overwritten? (leaf : Leaf ρ) (surplus : Bool) (one two : ρ) (json : Json) :
    (leaf.overwritten? surplus one json).isSome = (leaf.overwritten? surplus two json).isSome := by
  unfold overwritten?
  cases given? surplus leaf.way json with
  | none => rfl
  | some given => cases given <;> rfl

end
end Leaf

/-- Records are read leaf by leaf, and nothing else is in them. The base may depend on the document. -/
structure Reads (surplus : Bool) (read? : Json → Option ρ) (leaves : List (Leaf ρ)) (base : Json → ρ) : Prop where
  sound : ∀ {json record}, read? json = some record →
    ∀ leaf ∈ leaves, leaf.overwritten? surplus (base json) json = some (leaf.value record)
  complete : ∀ {json}, (∀ leaf ∈ leaves, ∃ value, leaf.overwritten? surplus (base json) json = some value) →
    ∃ record, read? json = some record
  determined : ∀ {one two}, (∀ leaf ∈ leaves, leaf.value one = leaf.value two) → one = two

section
variable {surplus : Bool} {read? : Json → Option ρ} {leaves : List (Leaf ρ)} {base : Json → ρ} {names : List String}

/-- It is enough to look at documents that are tables, as no leaf can be read from any other. -/
theorem Reads.ofTable {rest : Json.Fields → Option ρ}
    (shape : ∀ json, read? json = (Json.Fields.read? names surplus json).bind rest)
    (entered : ∃ leaf ∈ leaves, ∃ name way, leaf.way = (names, name) :: way)
    (sound : ∀ {json fields record}, Json.Fields.read? names surplus json = some fields → rest fields = some record →
      ∀ leaf ∈ leaves, leaf.overwritten? surplus (base json) json = some (leaf.value record))
    (complete : ∀ {json fields}, Json.Fields.read? names surplus json = some fields →
      (∀ leaf ∈ leaves, ∃ value, leaf.overwritten? surplus (base json) json = some value) →
      ∃ record, rest fields = some record)
    (determined : ∀ {one two}, (∀ leaf ∈ leaves, leaf.value one = leaf.value two) → one = two) :
    Reads surplus read? leaves base := by
  refine ⟨?_, ?_, determined⟩
  · intro json record read
    rw [shape] at read
    obtain ⟨fields, table, read⟩ := Option.bind_eq_some_iff.mp read
    exact sound table read
  · intro json given
    rw [shape]
    cases table : Json.Fields.read? names surplus json with
    | some fields => exact complete table given
    | none =>
      obtain ⟨leaf, member, name, way, entered⟩ := entered
      obtain ⟨value, blocked⟩ := given leaf member
      simp [Leaf.overwritten?, Leaf.given?, entered, table] at blocked

section
variable {json : Json} {fields : Json.Fields} {name : String} {part : σ → ρ} {whole : σ} {default : ρ}

theorem Reads.one_base (given : Option Json) (base : ρ) : base = given.elim base fun _ => base := by
  cases given <;> rfl

/-- A document whose leaves can all be read is one record, and one only, over the base. -/
theorem Reads.exact (reads : Reads surplus read? leaves base) {json : Json}
    (given : ∀ leaf ∈ leaves, ∃ value, leaf.overwritten? surplus (base json) json = some value) :
    ∃ record, read? json = some record ∧ ∀ other,
      (∀ leaf ∈ leaves, leaf.overwritten? surplus (base json) json = some (leaf.value other)) ↔ other = record := by
  obtain ⟨record, read⟩ := reads.complete given
  refine ⟨record, read, ?_⟩
  intro other
  constructor
  · intro agrees
    apply reads.determined
    intro leaf member
    exact Option.some.inj ((agrees leaf member).symm.trans (reads.sound read leaf member))
  · rintro rfl
    exact reads.sound read

/-- A part of a table is read as a table of its own. -/
theorem Reads.part_sound (reads : Reads surplus read? leaves base)
    (table : Json.Fields.read? names surplus json = some fields) {record : σ}
    (read : fields.getD? name read? default = some (part record))
    (known : part whole = (fields.find? name).elim default base) :
    ∀ leaf ∈ leaves.map (Leaf.within names name part),
      leaf.overwritten? surplus whole json = some (leaf.value record) := by
  rw [List.forall_mem_map]
  intro leaf member
  rw [Leaf.overwritten?_within table, known]
  unfold Json.Fields.getD? at read ⊢
  cases given : fields.find? name with
  | none =>
    rw [given] at read
    cases read
    rfl
  | some inner =>
    rw [given] at read
    exact reads.sound read leaf member

theorem Reads.part_complete (reads : Reads surplus read? leaves base)
    (table : Json.Fields.read? names surplus json = some fields)
    (given : ∀ leaf ∈ leaves.map (Leaf.within names name part), ∃ value, leaf.overwritten? surplus whole json = some value)
    (known : part whole = (fields.find? name).elim default base) :
    ∃ record, fields.getD? name read? default = some record := by
  simp only [List.forall_mem_map, Leaf.overwritten?_within table, known, Json.Fields.getD?] at given ⊢
  cases found : fields.find? name with
  | none => exact ⟨default, rfl⟩
  | some inner =>
    simp only [found] at given
    exact reads.complete given

end
end

namespace Store.Limits
open Leaf

def leaves : List (Leaf Limits) :=
  [field fieldNames "max_size_bytes" Json.natural? maxSize,
   field fieldNames "max_entries" Json.natural? maxEntries,
   field fieldNames "ttl_ms" Json.natural? ttl]

theorem reads (base : Limits) (surplus : Bool) : Reads surplus (read? base surplus) leaves fun _ => base := by
  have entered : ∃ leaf ∈ leaves, ∃ name way, leaf.way = (fieldNames, name) :: way := ⟨_, .head _, _, _, rfl⟩
  apply Reads.ofTable (fun _ => rfl) entered
  · intro json fields record table read
    simp only [Option.bind_eq_bind, Option.bind_eq_some_iff, Option.pure_def, Option.some.injEq] at read
    obtain ⟨maxSize, one, maxEntries, two, ttl, three, rfl⟩ := read
    simp [leaves, overwritten?_field table, one, two, three]
  · intro json fields table given
    simp only [leaves, List.forall_mem_cons, overwritten?_field table] at given
    obtain ⟨⟨maxSize, one⟩, ⟨maxEntries, two⟩, ⟨ttl, three⟩, -⟩ := given
    simp [one, two, three]
  · rintro ⟨⟩ ⟨⟩ alike
    simpa [leaves] using alike

end Store.Limits

namespace Batch.Settings
open Leaf

def leaves : List (Leaf Settings) :=
  [field fieldNames "batch_window_ms" Json.natural? window,
   field fieldNames "max_batch_wait_ms" Json.natural? maxWait,
   field fieldNames "max_incremental_files" Json.natural? maxIncrementalFiles,
   field fieldNames "full_update_threshold" Json.real? fullThreshold,
   field fieldNames "max_section_updates" Json.natural? maxSectionUpdates,
   field fieldNames "section_delay_ms" Json.natural? sectionDelay,
   field fieldNames "history_limit" Json.natural? historyLimit,
   field fieldNames "template_extensions" (Json.list? Json.string?) templateExtensions]

theorem reads (surplus : Bool) : Reads surplus (read? surplus) leaves fun _ => {} := by
  have entered : ∃ leaf ∈ leaves, ∃ name way, leaf.way = (fieldNames, name) :: way := ⟨_, .head _, _, _, rfl⟩
  apply Reads.ofTable (fun _ => rfl) entered
  · intro json fields record table read
    simp only [Option.bind_eq_bind, Option.bind_eq_some_iff, Option.pure_def, Option.some.injEq] at read
    obtain ⟨window, one, maxWait, two, files, three, threshold, four, updates, five, delay, six, limit, seven,
      extensions, eight, rfl⟩ := read
    simp [leaves, overwritten?_field table, one, two, three, four, five, six, seven, eight]
  · intro json fields table given
    simp only [leaves, List.forall_mem_cons, overwritten?_field table] at given
    obtain ⟨⟨_, one⟩, ⟨_, two⟩, ⟨_, three⟩, ⟨_, four⟩, ⟨_, five⟩, ⟨_, six⟩, ⟨_, seven⟩, ⟨_, eight⟩, -⟩ := given
    simp [one, two, three, four, five, six, seven, eight]
  · rintro ⟨⟩ ⟨⟩ alike
    simpa [leaves] using alike

end Batch.Settings

namespace Sync.Settings
open Leaf

def leaves : List (Leaf Settings) :=
  [field fieldNames "queue_capacity" Json.natural? capacity,
   field fieldNames "flush_interval_ms" Json.natural? flushInterval,
   field fieldNames "heartbeat_interval_ms" Json.natural? heartbeatInterval,
   field fieldNames "conflict_window_ms" Json.natural? conflictWindow]

theorem reads (surplus : Bool) : Reads surplus (read? surplus) leaves fun _ => {} := by
  have entered : ∃ leaf ∈ leaves, ∃ name way, leaf.way = (fieldNames, name) :: way := ⟨_, .head _, _, _, rfl⟩
  apply Reads.ofTable (fun _ => rfl) entered
  · intro json fields record table read
    simp only [Option.bind_eq_bind, Option.bind_eq_some_iff, Option.pure_def, Option.some.injEq] at read
    obtain ⟨capacity, one, flush, two, heartbeat, three, window, four, rfl⟩ := read
    simp [leaves, overwritten?_field table, one, two, three, four]
  · intro json fields table given
    simp only [leaves, List.forall_mem_cons, overwritten?_field table] at given
    obtain ⟨⟨_, one⟩, ⟨_, two⟩, ⟨_, three⟩, ⟨_, four⟩, -⟩ := given
    simp [one, two, three, four]
  · rintro ⟨⟩ ⟨⟩ alike
    simpa [leaves] using alike

end Sync.Settings

namespace Health.Thresholds
open Leaf

def leaves : List (Leaf Thresholds) :=
  [field fieldNames "hit_rate_warning" Json.real? (·.hitRate.warning),
   field fieldNames "hit_rate_critical" Json.real? (·.hitRate.critical),
   field fieldNames "min_lookups" Json.natural? minLookups,
   field fieldNames "memory_warning" Json.real? (·.memory.warning),
   field fieldNames "memory_critical" Json.real? (·.memory.critical),
   field fieldNames "success_rate_warning" Json.real? (·.successRate.warning),
   field fieldNames "success_rate_critical" Json.real? (·.successRate.critical),
   field fieldNames "latency_warning_ms" Json.real? (·.latency.warning),
   field fieldNames "latency_critical_ms" Json.real? (·.latency.critical),
   field fieldNames "queue_warning" Json.real? (·.queue.warning),
   field fieldNames "queue_critical" Json.real? (·.queue.critical)]

theorem reads (surplus : Bool) : Reads surplus (read? surplus) leaves fun _ => {} := by
  have entered : ∃ leaf ∈ leaves, ∃ name way, leaf.way = (fieldNames, name) :: way := ⟨_, .head _, _, _, rfl⟩
  apply Reads.ofTable (fun _ => rfl) entered
  · intro json fields record table read
    simp only [Option.bind_eq_bind, Option.bind_eq_some_iff, Option.pure_def, Option.some.injEq] at read
    obtain ⟨_, ⟨_, one, _, two, rfl⟩, _, three, _, ⟨_, four, _, five, rfl⟩, _, ⟨_, six, _, seven, rfl⟩,
      _, ⟨_, eight, _, nine, rfl⟩, _, ⟨_, ten, _, eleven, rfl⟩, rfl⟩ := read
    simp [leaves, overwritten?_field table, one, two, three, four, five, six, seven, eight, nine, ten, eleven]
  · intro json fields table given
    simp only [leaves, List.forall_mem_cons, overwritten?_field table] at given
    obtain ⟨⟨_, one⟩, ⟨_, two⟩, ⟨_, three⟩, ⟨_, four⟩, ⟨_, five⟩, ⟨_, six⟩, ⟨_, seven⟩, ⟨_, eight⟩, ⟨_, nine⟩, ⟨_, ten⟩,
      ⟨_, eleven⟩, -⟩ := given
    simp [one, two, three, four, five, six, seven, eight, nine, ten, eleven]
  · rintro ⟨⟨⟩, _, ⟨⟩, ⟨⟩, ⟨⟩, ⟨⟩⟩ ⟨⟨⟩, _, ⟨⟩, ⟨⟩, ⟨⟩, ⟨⟩⟩ alike
    simpa [leaves, and_assoc] using alike

end Health.Thresholds

namespace Health.Settings
open Leaf

def leaves : List (Leaf Settings) :=
  field fieldNames "interval_ms" Json.natural? interval ::
  field fieldNames "retained_samples" Json.natural? retained ::
  Thresholds.leaves.map (within fieldNames "thresholds" thresholds)

theorem reads (surplus : Bool) : Reads surplus (read? surplus) leaves fun _ => {} := by
  have entered : ∃ leaf ∈ leaves, ∃ name way, leaf.way = (fieldNames, name) :: way := ⟨_, .head _, _, _, rfl⟩
  apply Reads.ofTable (fun _ => rfl) entered
  · intro json fields record table read
    simp only [Option.bind_eq_bind, Option.bind_eq_some_iff, Option.pure_def, Option.some.injEq] at read
    obtain ⟨_, one, _, two, thresholds, three, rfl⟩ := read
    simp only [leaves, List.forall_mem_cons, overwritten?_field table]
    exact ⟨one, two, (Thresholds.reads surplus).part_sound table three (Reads.one_base _ _)⟩
  · intro json fields table given
    simp only [leaves, List.forall_mem_cons, overwritten?_field table] at given
    obtain ⟨⟨_, one⟩, ⟨_, two⟩, rest⟩ := given
    obtain ⟨_, three⟩ := (Thresholds.reads surplus).part_complete table rest (Reads.one_base _ _)
    simp [one, two, three]
  · rintro ⟨_, _, _⟩ ⟨_, _, _⟩ alike
    simp only [leaves, List.forall_mem_cons, List.forall_mem_map] at alike
    obtain ⟨rfl, rfl, thresholds⟩ := alike
    exact congrArg _ ((Thresholds.reads surplus).determined thresholds)

end Health.Settings

namespace ProjectSettings
open Leaf

def leaves : List (Leaf ProjectSettings) :=
  [field fieldNames "output_dir" Json.string? outputDirectory,
   field fieldNames "ignore" (Json.list? Json.string?) ignored,
   field fieldNames "hash_concurrency" Json.natural? hashConcurrency]

theorem reads (surplus : Bool) : Reads surplus (read? surplus) leaves fun _ => {} := by
  have entered : ∃ leaf ∈ leaves, ∃ name way, leaf.way = (fieldNames, name) :: way := ⟨_, .head _, _, _, rfl⟩
  apply Reads.ofTable (fun _ => rfl) entered
  · intro json fields record table read
    simp only [Option.bind_eq_bind, Option.bind_eq_some_iff, Option.pure_def, Option.some.injEq] at read
    obtain ⟨directory, one, ignored, two, concurrency, three, rfl⟩ := read
    simp [leaves, overwritten?_field table, one, two, three]
  · intro json fields table given
    simp only [leaves, List.forall_mem_cons, overwritten?_field table] at given
    obtain ⟨⟨_, one⟩, ⟨_, two⟩, ⟨_, three⟩, -⟩ := given
    simp [one, two, three]
  · rintro ⟨⟩ ⟨⟩ alike
    simpa [leaves] using alike

end ProjectSettings

namespace StoreSettings
open Leaf

def leaves : List (Leaf StoreSettings) :=
  Store.Limits.leaves.map (within fieldNames "analyses" (·.artifacts.analyses)) ++
  (Store.Limits.leaves.map (within fieldNames "templates" (·.artifacts.templates)) ++
  Store.Limits.leaves.map (within fieldNames "snapshots" snapshots))

/-- The limits that a document is read over. A store has its own, unless the document mentions it. -/
def base (surplus : Bool) (json : Json) : StoreSettings :=
  match Json.Fields.read? fieldNames surplus json with
  | none => {}
  | some fields =>
    let own : StoreSettings := {}
    { artifacts := { templates := (fields.find? "templates").elim own.artifacts.templates fun _ => {} }
      snapshots := (fields.find? "snapshots").elim own.snapshots fun _ => {} }

theorem reads (surplus : Bool) : Reads surplus (read? surplus) leaves (base surplus) := by
  have limits := Store.Limits.reads {} surplus
  have entered : ∃ leaf ∈ leaves, ∃ name way, leaf.way = (fieldNames, name) :: way := ⟨_, .head _, _, _, rfl⟩
  apply Reads.ofTable (fun _ => rfl) entered
  · intro json fields record table read
    simp only [Option.bind_eq_bind, Option.bind_eq_some_iff, Option.pure_def, Option.some.injEq] at read
    obtain ⟨analyses, one, templates, two, snapshots, three, rfl⟩ := read
    rw [base, table]
    simp only [leaves, List.forall_mem_append]
    exact ⟨limits.part_sound table one (Reads.one_base _ _), limits.part_sound table two rfl,
      limits.part_sound table three rfl⟩
  · intro json fields table given
    rw [base, table] at given
    simp only [leaves, List.forall_mem_append] at given
    obtain ⟨_, one⟩ := limits.part_complete table given.1 (Reads.one_base _ _)
    obtain ⟨_, two⟩ := limits.part_complete table given.2.1 rfl
    obtain ⟨_, three⟩ := limits.part_complete table given.2.2 rfl
    simp [one, two, three]
  · rintro ⟨⟨_, _⟩, _⟩ ⟨⟨_, _⟩, _⟩ alike
    simp only [leaves, List.forall_mem_append, List.forall_mem_map] at alike
    obtain ⟨analyses, templates, snapshots⟩ := alike
    cases limits.determined analyses
    cases limits.determined templates
    cases limits.determined snapshots
    rfl

end StoreSettings

namespace Settings
open Leaf

def leaves : List (Leaf Settings) :=
  StoreSettings.leaves.map (within fieldNames "cache" stores) ++
  (Batch.Settings.leaves.map (within fieldNames "scheduler" batch) ++
  (Sync.Settings.leaves.map (within fieldNames "sync" sync) ++
  (Health.Settings.leaves.map (within fieldNames "health" health) ++
  ProjectSettings.leaves.map (within fieldNames "project" project))))

def base (surplus : Bool) (json : Json) : Settings :=
  match Json.Fields.read? fieldNames surplus json with
  | none => {}
  | some fields => { stores := (fields.find? "cache").elim {} (StoreSettings.base surplus) }

theorem reads (surplus : Bool) : Reads surplus (read? surplus) leaves (base surplus) := by
  have entered : ∃ leaf ∈ leaves, ∃ name way, leaf.way = (fieldNames, name) :: way := ⟨_, .head _, _, _, rfl⟩
  apply Reads.ofTable (fun _ => rfl) entered
  · intro json fields record table read
    simp only [Option.bind_eq_bind, Option.bind_eq_some_iff, Option.pure_def, Option.some.injEq] at read
    obtain ⟨stores, one, batch, two, sync, three, health, four, project, five, rfl⟩ := read
    rw [base, table]
    simp only [leaves, List.forall_mem_append]
    exact ⟨(StoreSettings.reads surplus).part_sound table one rfl,
      (Batch.Settings.reads surplus).part_sound table two (Reads.one_base _ _),
      (Sync.Settings.reads surplus).part_sound table three (Reads.one_base _ _),
      (Health.Settings.reads surplus).part_sound table four (Reads.one_base _ _),
      (ProjectSettings.reads surplus).part_sound table five (Reads.one_base _ _)⟩
  · intro json fields table given
    rw [base, table] at given
    simp only [leaves, List.forall_mem_append] at given
    obtain ⟨stores, batch, sync, health, project⟩ := given
    obtain ⟨_, one⟩ := (StoreSettings.reads surplus).part_complete table stores rfl
    obtain ⟨_, two⟩ := (Batch.Settings.reads surplus).part_complete table batch (Reads.one_base _ _)
    obtain ⟨_, three⟩ := (Sync.Settings.reads surplus).part_complete table sync (Reads.one_base _ _)
    obtain ⟨_, four⟩ := (Health.Settings.reads surplus).part_complete table health (Reads.one_base _ _)
    obtain ⟨_, five⟩ := (ProjectSettings.reads surplus).part_complete table project (Reads.one_base _ _)
    simp [one, two, three, four, five]
  · rintro ⟨_, _, _, _, _⟩ ⟨_, _, _, _, _⟩ alike
    simp only [leaves, List.forall_mem_append, List.forall_mem_map] at alike
    obtain ⟨stores, batch, sync, health, project⟩ := alike
    cases (StoreSettings.reads surplus).determined stores
    cases (Batch.Settings.reads surplus).determined batch
    cases (Sync.Settings.reads surplus).determined sync
    cases (Health.Settings.reads surplus).determined health
    cases (ProjectSettings.reads surplus).determined project
    rfl

end Settings

end FreshDocs
