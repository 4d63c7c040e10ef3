import FreshDocs.Proofs.ArtifactDrops
import FreshDocs.Proofs.ArtifactInvalidation
import FreshDocs.Proofs.ProjectStores

/-! What becomes of an analysis when a file is dropped that it takes in. Imports are resolved down to keys, and dependencies
that are spelled as keys are those that an invalidation follows. -/

namespace FreshDocs

/-! ### Imports -/

private theorem Source.isKey_dependency? {source : Path} {target found : String}
    (resolved : dependency? source target = some found) : Path.IsKey found := by
  unfold dependency? at resolved
  split at resolved
  · dsimp only at resolved
    split at resolved <;> exact Option.some.inj resolved ▸ Path.key_key _
  · cases resolved

/-- Whatever a text takes in, its dependencies are spelled as keys. -/
theorem Finding.isKey_ofStats (path : Path) (text : String) :
    ∀ target ∈ (Finding.ofStats path text).dependencies, Path.IsKey target := by
  intro target listed
  obtain ⟨name, -, resolved⟩ := List.mem_filterMap.mp listed
  exact Source.isKey_dependency? resolved

/-- An analysis by lines has the figures of a text at a path with its key, and this text has its digest. -/
theorem Analysis.MadeBy.text {key : String} {analysis : Analysis} {digest : Digest}
    (made : Analysis.MadeBy .stats key analysis digest) :
    ∃ (path : Path) (text : String), path.key = key ∧ digest = Digest.ofText text ∧
      analysis.result = (Finding.ofStats path text).result ∧
      analysis.dependencies = (Finding.ofStats path text).dependencies := by
  obtain ⟨now, path, workspace, content, stamp, finding, supported, -, read, found, shape, named, -, same⟩ := made
  have source : Source.isSource path = true := supported
  have stats : Analyzer.readStats workspace.files path = .ok finding := found
  rw [Analyzer.readStats, if_pos source] at stats
  cases heard : workspace.files.readText path with
  | error fault => simp [heard] at stats
  | ok text =>
    rw [heard] at stats
    obtain ⟨again, reread, decoded⟩ := Files.readText_eq_ok.mp heard
    obtain rfl : again = content := Except.ok.inj (reread.symm.trans read)
    obtain rfl : Finding.ofStats path text = finding := Except.ok.inj stats
    refine ⟨path, text, named, same.trans (Digest.ofText_of_fromUTF8 decoded).symm, ?_, ?_⟩ <;> rw [shape] <;> rfl

/-! ### Invalidations -/

namespace Artifacts

/-- The cascade from a key that a stored analysis declares to depend on takes this analysis along. -/
theorem invalidate_of_declared {cache : Artifacts} (mirrored : cache.graph.Mirrored) (tracked : cache.Tracked)
    {key : String} {entry : Store.Entry Analysis} (stored : cache.analyses.find? key = some entry) {path : Path}
    (declared : path.key ∈ entry.value.dependencies) :
    key ∈ (cache.invalidate path).1 ∧ (cache.invalidate path).2.analyses.find? key = none := by
  have listed : key ∈ cache.graph.cascade path.key := by
    by_cases own : path.key = key
    · exact own ▸ cache.graph.mem_cascade path.key
    · exact mirrored.mem_cascade_iff.mpr (.single ((tracked key entry stored path.key).mpr ⟨declared, own⟩))
  exact ⟨mem_dropAll.mpr ⟨listed, Option.isSome_of_eq_some stored⟩, find?_dropAll listed cache⟩

end Artifacts

namespace Project

/-- Imports always cascade. All dependencies that are found in a text are spelled as keys. Whatever is asked of a project
that counts lines, and whatever others do with its stores, what is stored under a key was stored there by others or has
the dependencies of a text at a path with this key; and an invalidation of any path whose key is among the dependencies
drops it. -/
theorem imports_cascade :
    (∀ (path : Path) (text : String), ∀ target ∈ (Finding.ofStats path text).dependencies, Path.IsKey target) ∧
    ∀ (project : Project) (compiler : Compiler) (files : Files) (limits : Artifacts.Limits) (snapshots : Store.Limits)
      (accesses : List (Timestamp × Access)) (key : String) (entry : Store.Entry Analysis),
      project.analyzer = .stats →
      let cache := (share project compiler (.ofFiles files limits snapshots) accesses).artifacts
      cache.analyses.find? key = some entry →
        ((∃ access ∈ accesses, access.2.Stores key entry.value) ∨
          ∃ (path : Path) (text : String), path.key = key ∧ entry.digest = Digest.ofText text ∧
            entry.value.result = (Finding.ofStats path text).result ∧
            entry.value.dependencies = (Finding.ofStats path text).dependencies) ∧
        ∀ path : Path, path.key ∈ entry.value.dependencies →
          key ∈ (cache.invalidate path).1 ∧ (cache.invalidate path).2.analyses.find? key = none := by
  refine ⟨Finding.isKey_ofStats, ?_⟩
  intro project compiler files limits snapshots accesses key entry counts cache stored
  have storesNothing : project.analyzer.StoresNothing := counts ▸ Analyzer.stats_storesNothing
  let supplied (analysis : Analysis) (digest : Digest) : Prop :=
    (∃ access ∈ accesses, access.2.Stores key analysis) ∨ Analysis.MadeBy project.analyzer key analysis digest
  have issues : Artifacts.Issues supplied key (.empty limits) cache :=
    share_issues storesNothing (fun _ _ => .inr) compiler (fun access listed _ _ stores => .inl ⟨access, listed, stores⟩)
      (.ofFiles files limits snapshots)
  constructor
  · rcases issues.holds (.empty limits) entry stored with others | made
    · exact .inl others
    · rw [counts] at made
      exact .inr made.text
  · obtain ⟨requests, reached, -⟩ := issues
    have mirrored : cache.graph.Mirrored := reached ▸ Artifacts.run_mirrored limits requests
    have tracked : cache.Tracked := reached ▸ Artifacts.run_tracked limits requests
    exact fun path declared => Artifacts.invalidate_of_declared mirrored tracked stored declared

def siblings : Files :=
  { root := .directory [("a.ts", .file "import './b';".toUTF8 .epoch), ("b.ts", .file .empty .epoch)], current := [] }

def asking : List (Timestamp × Access) :=
  [(.epoch, .ask (.analysis ⟨"/a.ts"⟩)), (.epoch, .use .sweep)]

theorem siblings_cascade :
    let project : Project := { root := ⟨"/"⟩ }
    project.analyzer = .stats ∧ ∃ entry,
      let cache := (share project Markdown.compile (.ofFiles siblings {} {}) asking).artifacts
      cache.analyses.find? "/a.ts" = some entry ∧ entry.value.dependencies = ["/b.ts"] ∧
        ∀ path : Path, path.key ∈ entry.value.dependencies →
          "/a.ts" ∈ (cache.invalidate path).1 ∧ (cache.invalidate path).2.analyses.find? "/a.ts" = none := by
  intro project
  have declared : ((share project Markdown.compile (.ofFiles siblings {} {}) asking).artifacts.analyses.find? "/a.ts").map
      (·.value.dependencies) = some ["/b.ts"] := by decide +kernel
  obtain ⟨entry, stored, dependencies⟩ := Option.map_eq_some_iff.mp declared
  have cascades := imports_cascade.2 project Markdown.compile siblings {} {} asking "/a.ts" entry rfl stored
  exact ⟨rfl, entry, stored, dependencies, cascades.2⟩

end Project
end FreshDocs
