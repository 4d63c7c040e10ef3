import FreshDocs.Proofs.ArtifactDependencies
import FreshDocs.Proofs.BatchInvalidation

/-! What an invalidation takes along. It goes by keys, while a dependency is recorded in the spelling it was
declared with, so it follows a chain of dependencies only as far as each of them is spelled as its key. -/

namespace FreshDocs
open Relation

def Path.IsKey (text : String) : Prop :=
  (Path.mk text).key = text

namespace Dependencies

def Sourced (graph : Dependencies) : Prop :=
  ∀ path target, graph.DependsOn path target → Path.IsKey path

/-- The first path is the second, or relies on it by dependencies that are spelled as their keys. -/
abbrev Follows (graph : Dependencies) : String → String → Prop :=
  ReflTransGen fun path target => graph.DependsOn path target ∧ Path.IsKey target

namespace Sourced
variable {graph : Dependencies}

theorem empty : Sourced {} := by
  intro path target depends
  simp [DependsOn, dependencies, setAt] at depends

theorem record (sourced : graph.Sourced) (path : Path) (targets : List String) :
    (graph.record path.key targets).Sourced := by
  intro other target depends
  rw [dependsOn_record] at depends
  split at depends
  next same => exact same.symm ▸ path.key_key
  next => exact sourced other target depends

theorem forget (sourced : graph.Sourced) (path : String) : (graph.forget path).Sourced :=
  fun other target depends => sourced other target ((dependsOn_forget graph path).mp depends).2

/-- On the way to a key, all that is relied on is spelled as its key. -/
theorem relies_iff (sourced : graph.Sourced) {path start : String} (key : Path.IsKey start) :
    graph.ReliesOn path start ↔ graph.Follows path start := by
  constructor
  · intro relies
    induction relies using ReflTransGen.head_induction_on with
    | refl => exact .refl
    | @head path next depends rest ih =>
      have spelled : Path.IsKey next := by
        rcases rest.cases_head with rfl | ⟨later, further, -⟩
        · exact key
        · exact sourced next later further
      exact .head ⟨depends, spelled⟩ ih
  · exact ReflTransGen.mono (fun _ _ depends => depends.1) path start

end Sourced
end Dependencies

namespace Artifacts

theorem apply_sourced {cache : Artifacts} (sourced : cache.graph.Sourced) (now : Timestamp) (request : Request) :
    (request.apply now cache).graph.Sourced := by
  rcases graph_apply now cache request with same | ⟨path, targets, recorded⟩ | ⟨path, forgotten⟩ | emptied
  · exact same.symm ▸ sourced
  · exact recorded.symm ▸ sourced.record path targets
  · exact forgotten.symm ▸ sourced.forget path.key
  · exact emptied.symm ▸ .empty

theorem run_sourced (limits : Limits) (requests : List (Timestamp × Request)) :
    (run (empty limits) requests).graph.Sourced := by
  apply run_keeps (·.graph.Sourced) ?_ .empty requests
  intro now cache request sourced
  exact apply_sourced sourced now request

/-- What is stored is dropped by an invalidation that reaches its key, and by no other. -/
theorem dropped_iff {cache : Artifacts} (mirrored : cache.graph.Mirrored) {key : String}
    (stored : (cache.analyses.find? key).isSome) (path : Path) :
    (cache.invalidate path).2.analyses.find? key = none ↔ cache.graph.ReliesOn key path.key := by
  obtain ⟨entry, held⟩ := Option.isSome_iff_exists.mp stored
  have without := (dropAll_without (cache.graph.cascade path.key) cache).1
  rw [← mirrored.mem_cascade_iff]
  constructor
  · intro dropped
    apply Classical.byContradiction
    intro unlisted
    have kept := (without key entry).mpr ⟨held, unlisted⟩
    exact absurd (dropped.symm.trans kept) nofun
  · exact fun listed => find?_dropAll listed cache

/-- A path takes a stored analysis along just if dependencies lead there from the analysis that are all spelled as
their keys. One that the analysis declares itself in such a spelling is enough, however the path is spelled. -/
theorem run_invalidate_iff (limits : Limits) (requests : List (Timestamp × Request)) {key : String}
    {entry : Store.Entry Analysis} (stored : (run (empty limits) requests).analyses.find? key = some entry) :
    let cache := run (empty limits) requests
    (∀ path : Path, (cache.invalidate path).2.analyses.find? key = none ↔ cache.graph.Follows key path.key) ∧
      ∀ target ∈ entry.value.dependencies, Path.IsKey target → ∀ path : Path, path.key = (Path.mk target).key →
        (cache.invalidate path).2.analyses.find? key = none := by
  have dropped (path : Path) := dropped_iff (run_mirrored limits requests) (Option.isSome_of_eq_some stored) path
  have sourced := run_sourced limits requests
  refine ⟨fun path => (dropped path).trans (sourced.relies_iff path.key_key), ?_⟩
  intro target declared spelled path same
  rw [dropped path, same, spelled]
  by_cases own : target = key
  · rw [own]
  · exact .single ((run_tracked limits requests key entry stored target).mpr ⟨declared, own⟩)

/-- A file is stored as relying on another one by its key, and on a third in another spelling. -/
def spelling : List (Timestamp × Request) :=
  let files : Files := { root := .directory [("a.ts", .file .empty .epoch)], current := [] }
  let stamp : FileStamp := { path := ⟨"a.ts"⟩, digest := .ofBytes .empty, size := 0, modified := .epoch }
  [(.epoch, .set files stamp.path (.ofStamp stamp .null []) ["b.ts", "./c.ts"])]

theorem spelled_invalidate_iff : ∃ entry, (run (empty {}) spelling).analyses.find? "a.ts" = some entry ∧
    let cache := run (empty {}) spelling
    (∀ path : Path, (cache.invalidate path).2.analyses.find? "a.ts" = none ↔ cache.graph.Follows "a.ts" path.key) ∧
      ∀ target ∈ entry.value.dependencies, Path.IsKey target → ∀ path : Path, path.key = (Path.mk target).key →
        (cache.invalidate path).2.analyses.find? "a.ts" = none := by
  have present : ((run (empty {}) spelling).analyses.find? "a.ts").isSome := by decide +kernel
  obtain ⟨entry, stored⟩ := Option.isSome_iff_exists.mp present
  exact ⟨entry, stored, run_invalidate_iff {} spelling stored⟩

/-- Another spelling of a declared dependency drops nothing, even if it is the one that was declared. -/
theorem respelled_not_dropped :
    ((run (empty {}) spelling).analyses.find? "a.ts").map (·.value.dependencies) = some ["b.ts", "./c.ts"] ∧
      (((run (empty {}) spelling).invalidate ⟨"./c.ts"⟩).2.analyses.find? "a.ts").isSome :=
  by decide +kernel

end Artifacts
end FreshDocs
