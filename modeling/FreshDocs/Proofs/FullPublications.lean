import FreshDocs.Proofs.BatchWaits
import FreshDocs.Proofs.HubConflicts
import FreshDocs.Proofs.HubFlushes
import FreshDocs.Proofs.Publications
import Mathlib.Data.List.Nodup

/-! What a flush passes on after everything was made anew. A hub that nothing competes in queues generated documents as
they come, and a flush passes them all on, unless two of them have one path: then the later one is all there is. The
only path that can be taken twice is that of the overview. -/

namespace FreshDocs
open Sync

def Sync.Revision.contents (revision : Revision) : Scope × Document :=
  (revision.scope, { path := revision.path, content := revision.content })

namespace Sync.Hub

/-- Nothing competes with generated content: no conflict is pending, what is queued is generated, and what was last
passed on was passed on too long ago. -/
structure Calm (now : Timestamp) (hub : Hub) : Prop where
  free : ∀ path : String, hub.conflictOf[path]? = none
  generated : ∀ revision ∈ hub.queue, revision.origin = .auto
  past : ∀ (path : String) revision, hub.recent[path]? = some revision →
    hub.settings.conflictWindow < revision.timestamp.gapMillis now

section
variable {now : Timestamp} {hub : Hub}

private theorem Calm.recent_pruned (calm : hub.Calm now) (path : String) : (hub.pruneRecent now).recent[path]? = none := by
  simp only [pruneRecent, Std.ExtTreeMap.getElem?_filter']
  cases known : hub.recent[path]? with
  | none => rfl
  | some revision => simp [Option.filter, calm.past path revision known]

theorem Calm.raised? (calm : hub.Calm now) {revision : Revision} (auto : revision.origin = .auto) :
    hub.raised? now revision = none := by
  have queued : (hub.pruneRecent now).queue.reverse.find?
      (competes (hub.pruneRecent now).settings.conflictWindow revision) = none := by
    rw [List.find?_eq_none]
    intro candidate member
    have same := calm.generated candidate (List.mem_reverse.mp member)
    simp [competes, auto, same, Origin.other]
  simp [Hub.raised?, competing?, queued, calm.recent_pruned]

theorem Calm.publish (calm : hub.Calm now) (scope : Scope) (document : Document)
    (room : hub.queue.length < hub.queueLimit) :
    (Publisher.publish now scope document hub).Calm now ∧
      (Publisher.publish now scope document hub).settings = hub.settings ∧
      (Publisher.publish now scope document hub).queue.map (·.contents) =
        hub.queue.map (·.contents) ++ [(scope, document)] := by
  let revision := Revision.make hub.ids.draw.1 now scope document.path document.content .auto
  let drawn : Hub := { hub with ids := hub.ids.draw.2 }
  have drawn_calm : drawn.Calm now := ⟨calm.free, calm.generated, calm.past⟩
  have docket : (Publisher.publish now scope document hub).docket = ((drawn.pruneRecent now).enqueue revision).2.docket :=
    docket_submit_queued now (calm.free _) (drawn_calm.raised? rfl)
  obtain ⟨-, shape⟩ | ⟨oldest, rest, full, -⟩ := enqueue_cases (drawn.pruneRecent now) revision
  · rw [shape] at docket
    have queue : (Publisher.publish now scope document hub).queue = hub.queue ++ [revision] := congrArg Docket.queue docket
    have recent : (Publisher.publish now scope document hub).recent = (drawn.pruneRecent now).recent :=
      congrArg Docket.recent docket
    have conflictOf : (Publisher.publish now scope document hub).conflictOf = hub.conflictOf :=
      congrArg Docket.conflictOf docket
    refine ⟨⟨?_, ?_, ?_⟩, congrArg Docket.settings docket, ?_⟩
    · rw [conflictOf]
      exact calm.free
    · rw [queue]
      intro queued member
      rcases List.mem_append.mp member with before | last
      · exact calm.generated queued before
      · rw [List.mem_singleton.mp last]
        rfl
    · intro path found known
      rw [recent, drawn_calm.recent_pruned] at known
      cases known
    · rw [queue, List.map_append]
      rfl
  · exact absurd room (Nat.not_lt.mpr full)

theorem Calm.handOver (calm : hub.Calm now) (documents : List (Scope × Document))
    (room : hub.queue.length + documents.length ≤ hub.queueLimit) :
    (Publisher.handOver now documents hub).queue.map (·.contents) = hub.queue.map (·.contents) ++ documents := by
  induction documents generalizing hub with
  | nil => simp [Publisher.handOver]
  | cons entry rest ih =>
    obtain ⟨scope, document⟩ := entry
    rw [List.length_cons] at room
    obtain ⟨calmly, settings, queue⟩ := calm.publish scope document (by omega)
    have longer : (Publisher.publish now scope document hub).queue.length = hub.queue.length + 1 := by
      simpa using congrArg List.length queue
    have limit : (Publisher.publish now scope document hub).queueLimit = hub.queueLimit := by
      rw [queueLimit, settings, queueLimit]
    have later := ih calmly (by omega)
    rw [Publisher.handOver, List.foldl_cons, ← Publisher.handOver, later, queue, List.append_assoc]
    rfl

end

/-- A batch that has no document twice is passed on as it is. -/
theorem compact_of_nodup {queue : List Revision} (distinct : (queue.map (·.path)).Nodup) : compact queue = queue := by
  induction queue with
  | nil => rfl
  | cons first rest ih =>
    obtain ⟨alone, others⟩ := List.nodup_cons.mp distinct
    rw [compact, if_neg, ih others]
    simpa using alone

private theorem compact_cons_of_mem {first : Revision} {rest : List Revision} (again : first.path ∈ rest.map (·.path)) :
    compact (first :: rest) = compact rest := by
  rw [compact, if_pos]
  simpa using again

end Sync.Hub

namespace Publisher
open Sync.Hub

variable {project : Project} {now : Timestamp} {world : World}

private theorem publishAll_hub (project : Project) (now : Timestamp) (world : World) :
    (publishAll project now world).2.2 = handOver now (documents project now world.1 .everything) world.2 := by
  have same : ((regenerator project).act .everything now world).2 = (publishAll project now world).2 := by
    simp only [regenerator, act]
    obtain ⟨answer, after⟩ := publishAll project now world
    cases answer <;> rfl
  rw [← act_hub, same]

/-- The paths of the sections' documents are distinct, and that of the overview is another one unless a section has its
name. -/
theorem paths_of_sections
    (whole : (rendered project now world.1 .everything).map (·.1) = world.1.sections.all) :
    ((rendered project now world.1 .everything).map (·.2.path)).Nodup ∧
      (project.markdown.documentPath "index" ∈ (rendered project now world.1 .everything).map (·.2.path) ↔
        (world.1.sections.find? "index").isSome) := by
  have paths : (rendered project now world.1 .everything).map (·.2.path) =
      (world.1.sections.all.map (·.id)).map project.markdown.documentPath := by
    rw [← whole, List.map_map, List.map_map]
    exact List.map_congr_left fun rendering member => path_of_member member
  have injective : Function.Injective project.markdown.documentPath := fun _ _ => project.markdown.documentPath_injective
  rw [paths, List.mem_map_of_injective injective, Sections.mem_ids_all]
  exact ⟨List.Nodup.map injective (Sections.nodup_all _), Iff.rfl⟩

/-- After everything was made anew for a hub in which nothing competes, a flush passes on one document for each
registered section, and no path twice. The overview is passed on with them just if no section is called as it is;
otherwise the document of this section is passed on instead. -/
theorem publishAll_flush_passes_on (aside : project.analyzer.Aside)
    (few : world.1.sections.count < world.2.settings.capacity) (empty : world.2.queue = [])
    (free : ∀ path : String, world.2.conflictOf[path]? = none)
    (past : ∀ (path : String) revision, world.2.recent[path]? = some revision →
      world.2.settings.conflictWindow < revision.timestamp.gapMillis now)
    (well : (publishAll project now world).1 = .ok ()) (later : Timestamp) :
    let hub := (publishAll project now world).2.2
    let flushed := hub.flush later
    let sections := rendered project now world.1 .everything
    sections.map (·.1) = world.1.sections.all ∧
    (∀ rendering ∈ sections, rendering.2.path = project.markdown.documentPath rendering.1.id) ∧
    ∃ (overview : Document) (batch : List Revision), (project.renderOverview now world.1).1 = .ok overview ∧
      overview.path = project.markdown.documentPath "index" ∧
      flushed.1.broadcast = batch.length ∧
      flushed.2.clients = hub.clients.map (fun client => (batch.map (.ofRevision later)).foldl Client.take client) ∧
      flushed.2.notices = hub.notices ++ batch.zipWith
        (fun revision count => .broadcast revision.id revision.path count) (tally hub.clients (batch.map (.ofRevision later))) ∧
      (batch.map (·.path)).Nodup ∧
      batch.map (·.contents) = (if (world.1.sections.find? "index").isSome then [] else [(.project, overview)]) ++
        sections.map (fun rendering => (.file, rendering.2)) ∧
      ((.project, overview) ∈ batch.map (·.contents) ↔ world.1.sections.find? "index" = none) := by
  intro hub flushed sections
  obtain ⟨overview, made⟩ := overview_of_ok well
  have whole : sections.map (·.1) = world.1.sections.all := rendered_of_done aside (act_done.mpr well)
  have calm : world.2.Calm now := ⟨free, by simp [empty], past⟩
  have all : documents project now world.1 .everything =
      (.project, overview) :: sections.map fun rendering => (.file, rendering.2) := by
    simp [documents, overview?, made, Except.toOption, sections]
  have room : world.2.queue.length + (documents project now world.1 .everything).length ≤ world.2.queueLimit := by
    have count : sections.length = world.1.sections.count := by
      rw [← Sections.length_all, ← whole, List.length_map]
    simp only [empty, all, List.length_cons, List.length_map, List.length_nil, count, queueLimit]
    omega
  have queue : hub.queue.map (·.contents) = (.project, overview) :: sections.map fun rendering => (.file, rendering.2) := by
    have handed := calm.handOver _ room
    rwa [← publishAll_hub, empty, List.map_nil, List.nil_append, all] at handed
  have paths : hub.queue.map (·.path) = project.markdown.documentPath "index" :: sections.map (·.2.path) := by
    have mapped := congrArg (List.map (·.2.path)) queue
    simpa [Function.comp_def, Revision.contents, path_of_overview made] using mapped
  obtain ⟨distinct, taken⟩ := paths_of_sections whole
  have batch : (compact hub.queue).map (·.contents) =
      (if (world.1.sections.find? "index").isSome then [] else [(.project, overview)]) ++
        sections.map (fun rendering => (.file, rendering.2)) := by
    cases shape : hub.queue with
    | nil => simp [shape] at queue
    | cons first rest =>
      rw [shape, List.map_cons, List.cons.injEq] at queue paths
      have others : compact rest = rest := compact_of_nodup (paths.2 ▸ distinct)
      split
      next named =>
        have again : first.path ∈ rest.map (·.path) := by
          rw [paths.1, paths.2]
          exact taken.mpr named
        rw [compact_cons_of_mem again, others, queue.2, List.nil_append]
      next unnamed =>
        have once : ((first :: rest).map (·.path)).Nodup := by
          rw [List.map_cons, paths.1, paths.2]
          exact List.nodup_cons.mpr ⟨fun member => unnamed (taken.mp member), distinct⟩
        rw [compact_of_nodup once, List.map_cons, queue.1, queue.2]
        rfl
  have shape : flushed = _ := flush_eq hub later
  refine ⟨whole, fun rendering member => path_of_member member, overview, compact hub.queue, made, path_of_overview made,
    ?_, ?_, ?_, (compacts_compact hub.queue).distinct, batch, ?_⟩
  · rw [shape]
  · exact (Sends.flush hub later).clients
  · rw [shape]
    exact notices_passOn later _ hub.drained
  · rw [batch]
    cases world.1.sections.find? "index" <;> simp

/-- Sections without files, and a hub that nothing was asked of. -/
def bare (ids : List String) : World :=
  ({ Workspace.ofFiles (.empty []) {} {} with sections := ids.foldl (fun sections id => sections.register { id }) ∅ },
    { settings := {} })

theorem bare_flush_passes_on :
    let world := bare ["b", "a"]
    let flushed := (publishAll site .epoch world).2.2.flush .epoch
    (publishAll site .epoch world).1 = .ok () ∧ world.1.sections.count < world.2.settings.capacity ∧
    ∃ (overview : Document) (batch : List Revision), flushed.1.broadcast = batch.length ∧
      (batch.map (·.path)).Nodup ∧ overview.path = "docs/index.md" ∧
      batch.map (·.contents) = (.project, overview) ::
        (rendered site .epoch world.1 .everything).map (fun rendering => (.file, rendering.2)) ∧
      (rendered site .epoch world.1 .everything).map (·.1.id) = ["a", "b"] := by
  intro world flushed
  have well : (publishAll site .epoch world).1 = .ok () := by decide +kernel
  have few : world.1.sections.count < world.2.settings.capacity := by decide +kernel
  have unnamed : (world.1.sections.find? "index").isSome = false := by decide +kernel
  have ids : world.1.sections.all.map (·.id) = ["a", "b"] := by decide +kernel
  have directory : site.markdown.documentPath "index" = "docs/index.md" := by decide +kernel
  obtain ⟨whole, -, overview, batch, -, path, count, -, -, distinct, contents, -⟩ :=
    publishAll_flush_passes_on Analyzer.stats_aside few rfl (by simp [world, bare]) (by simp [world, bare]) well .epoch
  rw [unnamed] at contents
  refine ⟨well, few, overview, batch, count, distinct, path.trans directory, contents, ?_⟩
  rw [← ids, ← whole, List.map_map]
  rfl

/-- A section that is called as the overview is takes its place: of two documents, one is passed on. -/
theorem namesake_displaces_overview :
    let world := bare ["index"]
    let hub := (publishAll site .epoch world).2.2
    (publishAll site .epoch world).1 = .ok () ∧ world.1.sections.count = 1 ∧ world.1.sections.count < world.2.settings.capacity ∧
      hub.queue.map (fun revision => (revision.scope, revision.path)) =
        [(.project, "docs/index.md"), (.file, "docs/index.md")] ∧
      (hub.flush .epoch).1.broadcast = 1 ∧
      (hub.flush .epoch).2.recent.values.map (fun revision => (revision.scope, revision.path)) =
        [(.file, "docs/index.md")] := by
  decide +kernel

end Publisher
end FreshDocs
