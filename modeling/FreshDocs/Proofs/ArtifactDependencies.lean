import FreshDocs.Proofs.ArtifactRequests

/-! What is known of the dependencies of an analysis while it is stored: those that it was stored with, and
no others. An analysis may go before its dependencies do, never the other way round. -/

namespace FreshDocs
open Std

/-- Recording replaces what was known of a path, and of no other path. -/
theorem Dependencies.dependsOn_record (graph : Dependencies) (path : String) (targets : List String)
    {other target : String} :
    (graph.record path targets).DependsOn other target ↔
      if other = path then target ∈ targets ∧ target ≠ path else graph.DependsOn other target := by
  have listed : target ∈ (ExtTreeSet.ofList (targets.filter (· ≠ path)) : PathSet) ↔
      target ∈ targets ∧ target ≠ path := by
    simp [ExtTreeSet.mem_ofList]
  unfold record
  dsimp only
  split
  next none =>
    -- without targets apart from the path itself, the path is only forgotten
    rw [ExtTreeSet.isEmpty_iff.mp none] at listed
    rw [dependsOn_forget]
    split
    next same => simpa [same] using listed
    next other => simp [other]
  next =>
    split
    next same =>
      rw [same, ← listed]
      simp [DependsOn, dependencies, setAt]
    next other =>
      simp [DependsOn, dependencies, setAt, forget, ExtTreeMap.getElem?_insert, ExtTreeMap.getElem?_erase,
        Ne.symm other]

namespace Artifacts

/-- The graph has, for each stored analysis, what it declares to depend on, itself apart. -/
def Tracked (cache : Artifacts) : Prop :=
  ∀ key entry, cache.analyses.find? key = some entry →
    ∀ target, cache.graph.DependsOn key target ↔ target ∈ entry.value.dependencies ∧ target ≠ key

theorem Tracked.empty (limits : Limits) : (empty limits).Tracked := by
  intro key entry stored
  simp [Artifacts.empty, Store.empty, Store.find?] at stored

/-- Analyses may go as long as the graph stays as it is. -/
theorem Tracked.narrow {before after : Artifacts} (tracked : before.Tracked)
    (narrows : Store.Narrows before.analyses after.analyses) (same : after.graph = before.graph) :
    after.Tracked := by
  intro key entry stored target
  obtain ⟨old, held, value, -⟩ := narrows key entry stored
  rw [same, ← value]
  exact tracked key old held target

theorem Tracked.remove {cache : Artifacts} (tracked : cache.Tracked) (path : Path) :
    (cache.remove path).2.Tracked := by
  intro key entry stored target
  have invalidated := tracked.narrow (Narrows.invalidate cache path).analyses (graph_invalidate cache path)
  have kept : (cache.invalidate path).2.analyses.find? key = some entry := stored
  have other : key ≠ path.key := by
    rintro rfl
    rw [find?_invalidate] at kept
    cases kept
  rw [← invalidated key entry kept target]
  exact ((cache.invalidate path).2.graph.dependsOn_forget path.key).trans (and_iff_right other)

theorem Tracked.set {cache : Artifacts} (tracked : cache.Tracked) (files : Files) (now : Timestamp) (path : Path)
    (analysis : Analysis) (dependencies : List String) :
    (cache.set files now path analysis dependencies).2.Tracked := by
  unfold Artifacts.set
  split
  next => exact tracked
  next => exact tracked
  next =>
    split
    next => exact tracked
    next =>
      intro key entry stored target
      rw [Dependencies.dependsOn_record]
      split
      next same =>
        subst same
        rw [(Store.find?_set_self stored).1]
      next other =>
        obtain ⟨tick, held⟩ := (Store.find?_set stored).resolve_left fun new => other new.1.symm
        exact tracked key _ held target

theorem apply_tracked {cache : Artifacts} (tracked : cache.Tracked) (now : Timestamp) (request : Request) :
    (request.apply now cache).Tracked := by
  cases request with
  | set files path analysis dependencies => exact tracked.set files now path analysis dependencies
  | get files path => exact tracked.narrow (Narrows.get cache files now path).analyses (graph_get cache files now path)
  | invalidate path => exact tracked.narrow (Narrows.invalidate cache path).analyses (graph_invalidate cache path)
  | invalidateAll paths =>
    exact tracked.narrow (Narrows.invalidateAll paths cache).analyses (graph_invalidateAll paths cache)
  | remove path => exact tracked.remove path
  | setTemplate files path template =>
    simp only [Request.apply, setTemplate]
    split <;> exact tracked
  | getTemplate files path =>
    exact tracked.narrow (Narrows.getTemplate cache files now path).analyses (graph_getTemplate cache files now path)
  | invalidateTemplate path => exact tracked
  | invalidateTemplates paths =>
    exact tracked.narrow (Narrows.invalidateTemplates paths cache).analyses (graph_invalidateTemplates paths cache)
  | sweep => exact tracked.narrow (Narrows.sweep cache now).analyses rfl
  | clear =>
    intro key entry stored
    simp [Request.apply, Artifacts.clear, Store.clear, Store.find?] at stored

theorem run_tracked (limits : Limits) (requests : List (Timestamp × Request)) :
    (run (empty limits) requests).Tracked := by
  apply run_keeps Tracked ?_ (.empty limits) requests
  intro now cache request tracked
  exact apply_tracked tracked now request

/-- At all times the dependencies that are known of a stored analysis are those it declares, itself
apart, and the cascade from each of them reaches it. -/
theorem run_dependencies (limits : Limits) (requests : List (Timestamp × Request)) {key : String}
    {entry : Store.Entry Analysis} (stored : (run (empty limits) requests).analyses.find? key = some entry) :
    let cache := run (empty limits) requests
    (∀ target, target ∈ cache.graph.dependencies key ↔ target ∈ entry.value.dependencies ∧ target ≠ key) ∧
      ∀ target ∈ cache.graph.dependencies key, key ∈ cache.graph.cascade target := by
  have tracked := run_tracked limits requests key entry stored
  refine ⟨tracked, fun target depends => ?_⟩
  rw [(run_mirrored limits requests).mem_cascade_iff]
  exact .single depends

/-- A page is stored, and stored once more after it came to rely on another source and on itself. -/
def restoring : List (Timestamp × Request) :=
  let files : Files := { root := .directory [("page.md", .file .empty .epoch)], current := [] }
  let page : FileStamp := { path := ⟨"/page.md"⟩, digest := .ofBytes .empty, size := 0, modified := .epoch }
  [(.epoch, .set files page.path (.ofStamp page .null []) ["/old.src"]),
    (.epoch, .set files page.path (.ofStamp page .null []) ["/new.src", "/page.md"])]

theorem restored_dependencies : ∃ entry, (run (empty {}) restoring).analyses.find? "/page.md" = some entry ∧
    let cache := run (empty {}) restoring
    (∀ target, target ∈ cache.graph.dependencies "/page.md" ↔
        target ∈ entry.value.dependencies ∧ target ≠ "/page.md") ∧
      ∀ target ∈ cache.graph.dependencies "/page.md", "/page.md" ∈ cache.graph.cascade target := by
  have present : ((run (empty {}) restoring).analyses.find? "/page.md").isSome := by decide +kernel
  obtain ⟨entry, stored⟩ := Option.isSome_iff_exists.mp present
  exact ⟨entry, stored, run_dependencies {} restoring stored⟩

end Artifacts
end FreshDocs
