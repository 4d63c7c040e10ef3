import FreshDocs.Proofs.ArtifactRequests
import FreshDocs.Proofs.ProjectFreshness
import FreshDocs.Proofs.ProjectSteps

/-! What a project asks of the stores of analyses and templates, which others may use besides it. All that it does
to them comes to requests, and what it stores under a key is what its analyzer found in a file that has it. -/

namespace FreshDocs

/-- An analyzer does not use the stores: that is for the project that it works for. -/
def Analyzer.StoresNothing (analyzer : Analyzer) : Prop :=
  ∀ (now : Timestamp) (path : Path) (workspace : Workspace),
    (analyzer.analyze now path workspace).2.artifacts = workspace.artifacts

theorem Analyzer.stats_storesNothing : Analyzer.stats.StoresNothing :=
  fun _ _ _ => rfl

/-- The analysis was made by the analyzer, from whatever content the file had then. -/
abbrev Analysis.MadeBy (analyzer : Analyzer) : String → Analysis → Digest → Prop :=
  Analysis.Made analyzer fun _ => True

namespace Artifacts

/-- If the request stores anything under the key, this is allowed there. -/
def Request.Admits (allowed : Analysis → Digest → Prop) (key : String) : Request → Prop
  | .set _ path analysis dependencies =>
    path.key = key → allowed { analysis with dependencies } analysis.stamp.digest
  | _ => True

/-- The second stores come from the first by requests that store under the key only what is allowed there. -/
def Issues (allowed : Analysis → Digest → Prop) (key : String) (before after : Artifacts) : Prop :=
  ∃ requests, after = run before requests ∧ ∀ entry ∈ requests, entry.2.Admits allowed key

theorem run_append (cache : Artifacts) (first second : List (Timestamp × Request)) :
    run cache (first ++ second) = run (run cache first) second := by
  induction first generalizing cache with
  | nil => rfl
  | cons entry rest ih => exact ih _

/-- What is stored under the key is allowed there. -/
def Holds (allowed : Analysis → Digest → Prop) (key : String) (cache : Artifacts) : Prop :=
  ∀ entry, cache.analyses.find? key = some entry → allowed entry.value entry.digest

section
variable {allowed : Analysis → Digest → Prop} {key : String}

namespace Issues

theorem refl (cache : Artifacts) : Issues allowed key cache cache :=
  ⟨[], rfl, nofun⟩

theorem trans {first second third : Artifacts} (one : Issues allowed key first second)
    (two : Issues allowed key second third) : Issues allowed key first third := by
  obtain ⟨requests, rfl, some⟩ := one
  obtain ⟨others, rfl, more⟩ := two
  exact ⟨requests ++ others, (run_append _ _ _).symm, List.forall_mem_append.mpr ⟨some, more⟩⟩

theorem single (cache : Artifacts) (now : Timestamp) (request : Request) (admits : request.Admits allowed key) :
    Issues allowed key cache (request.apply now cache) :=
  ⟨[(now, request)], rfl, List.forall_mem_singleton.mpr admits⟩

end Issues

theorem Holds.empty (limits : Limits) : (empty limits).Holds allowed key := by
  intro entry stored
  simp [Artifacts.empty, Store.empty, Store.find?] at stored

theorem Holds.narrow {before after : Artifacts} (holds : before.Holds allowed key)
    (narrows : Store.Narrows before.analyses after.analyses) : after.Holds allowed key := by
  intro entry stored
  obtain ⟨old, held, value, digest⟩ := narrows key entry stored
  rw [← value, ← digest]
  exact holds old held

theorem Holds.set {cache : Artifacts} (holds : cache.Holds allowed key) (files : Files) (now : Timestamp) (path : Path)
    (analysis : Analysis) (dependencies : List String)
    (admits : (Request.set files path analysis dependencies).Admits allowed key) :
    (cache.set files now path analysis dependencies).2.Holds allowed key := by
  unfold Artifacts.set
  split
  next => exact holds
  next => exact holds
  next =>
    split
    next => exact holds
    next =>
      intro entry stored
      rcases Store.find?_set stored with ⟨named, value, digest⟩ | ⟨tick, held⟩
      · rw [value, digest]
        exact admits named
      · exact holds { entry with tick } held

theorem apply_holds {cache : Artifacts} (holds : cache.Holds allowed key) (now : Timestamp) {request : Request}
    (admits : request.Admits allowed key) : (request.apply now cache).Holds allowed key := by
  cases request with
  | set files path analysis dependencies => exact holds.set files now path analysis dependencies admits
  | get files path => exact holds.narrow (Narrows.get cache files now path).analyses
  | invalidate path => exact holds.narrow (Narrows.invalidate cache path).analyses
  | invalidateAll paths => exact holds.narrow (Narrows.invalidateAll paths cache).analyses
  | remove path => exact holds.narrow (Narrows.remove cache path).analyses
  | setTemplate files path template =>
    simp only [Request.apply, setTemplate]
    split <;> exact holds
  | getTemplate files path => exact holds.narrow (Narrows.getTemplate cache files now path).analyses
  | invalidateTemplate path => exact holds
  | invalidateTemplates paths => exact holds.narrow (Narrows.invalidateTemplates paths cache).analyses
  | sweep => exact holds.narrow (Narrows.sweep cache now).analyses
  | clear => exact holds.narrow (Narrows.clear cache).analyses

theorem Issues.holds {before after : Artifacts} (issues : Issues allowed key before after)
    (holds : before.Holds allowed key) : after.Holds allowed key := by
  obtain ⟨requests, rfl, admits⟩ := issues
  induction requests generalizing before with
  | nil => exact holds
  | cons entry rest ih =>
    obtain ⟨first, later⟩ := List.forall_mem_cons.mp admits
    exact ih (apply_holds holds entry.1 first) later

end
end Artifacts

namespace Project
open Artifacts

section
variable {project : Project} {compiler : Compiler} {allowed : Analysis → Digest → Prop} {key : String} {now : Timestamp}
  (storesNothing : project.analyzer.StoresNothing)
  (allows : ∀ analysis digest, Analysis.MadeBy project.analyzer key analysis digest → allowed analysis digest)
include storesNothing allows

/-- A project stores what its analyzer finds in a file under the key of this file, and no other analysis. -/
theorem Step.issues {before after : Workspace} (step : project.Step compiler now before after) :
    Issues allowed key before.artifacts after.artifacts := by
  cases step with
  | lookup path => exact .single _ now (.get before.files path) trivial
  | analyze => exact storesNothing _ _ _ ▸ .refl _
  | @store path _ after stamp finding supported live found =>
    obtain ⟨content, read, spelled, digest⟩ := FileStamp.read_live live
    have same : after.artifacts = before.artifacts := by
      have kept := storesNothing now path before
      rwa [found] at kept
    have made (named : path.key = key) : Analysis.MadeBy project.analyzer key
        (.ofStamp stamp finding.result finding.dependencies) stamp.digest :=
      .intro now path before content stamp finding supported trivial read (by rw [found]) rfl named spelled digest
    rw [same]
    exact .single _ now (.set after.files path _ finding.dependencies) fun named => allows _ _ (made named)
  | lookupTemplate path => exact .single _ now (.getTemplate before.files path) trivial
  | storeTemplate => exact .single _ now (.setTemplate before.files _ _) trivial

theorem Steps.issues {before after : Workspace} (steps : project.Steps compiler now before after) :
    Issues allowed key before.artifacts after.artifacts := by
  induction steps with
  | refl => exact .refl _
  | tail _ step ih => exact ih.trans (step.issues storesNothing allows)

/-- All that is asked of a project comes to requests of its stores. -/
theorem apply_issues (request : Request) (workspace : Workspace) :
    Issues allowed key workspace.artifacts (request.apply project compiler now workspace).artifacts := by
  cases request with
  | analysis path => exact (analysis_steps project compiler now path workspace).issues storesNothing allows
  | template path => exact (templateBy_steps project compiler now path workspace).issues storesNothing allows
  | renderSection part => exact (renderSectionBy_steps project compiler now part workspace).issues storesNothing allows
  | snapshot directory =>
    obtain ⟨looked, after, steps, snapshots, same⟩ := snapshot_steps project compiler now directory workspace
    have issued := steps.issues storesNothing allows
    simp only [Request.apply, same]
    exact issued
  | invalidate path => exact .single _ now (.invalidate path) trivial
  | invalidateAll paths => exact .single _ now (.invalidateAll paths) trivial
  | remove path => exact .single _ now (.remove path) trivial
  | invalidateTemplate path => exact .single _ now (.invalidateTemplate path) trivial
  | invalidateTemplates paths => exact .single _ now (.invalidateTemplates paths) trivial
  | sweep => exact .single _ now .sweep trivial
  | clear => exact .single _ now .clear trivial
  | invalidateSnapshot | invalidateUncovered | sweepSnapshots | clearSnapshots | alter => exact .refl _

end

/-! ### Stores that others use -/

/-- What can happen to stores that a project shares with others. -/
inductive Access where
  | ask (request : Request)
  /-- Others use the stores themselves. -/
  | use (request : Artifacts.Request)

def Access.apply (project : Project) (compiler : Compiler) (now : Timestamp) (workspace : Workspace) : Access → Workspace
  | .ask request => request.apply project compiler now workspace
  | .use request => { workspace with artifacts := request.apply now workspace.artifacts }

def Access.Stores (key : String) (analysis : Analysis) : Access → Prop
  | .use (.set _ path found dependencies) => path.key = key ∧ analysis = { found with dependencies }
  | _ => False

def share (project : Project) (compiler : Compiler) (workspace : Workspace) : List (Timestamp × Access) → Workspace
  | [] => workspace
  | (now, access) :: rest => share project compiler (access.apply project compiler now workspace) rest

section
variable {project : Project} {allowed : Analysis → Digest → Prop} {key : String}
  (storesNothing : project.analyzer.StoresNothing)
  (allows : ∀ analysis digest, Analysis.MadeBy project.analyzer key analysis digest → allowed analysis digest)
include storesNothing allows

theorem Access.apply_issues (compiler : Compiler) (now : Timestamp) {access : Access}
    (others : ∀ analysis digest, access.Stores key analysis → allowed analysis digest) (workspace : Workspace) :
    Issues allowed key workspace.artifacts (access.apply project compiler now workspace).artifacts := by
  cases access with
  | ask request => exact Project.apply_issues storesNothing allows request workspace
  | use request =>
    refine .single _ now request ?_
    cases request with
    | set files path analysis dependencies => exact fun named => others _ _ ⟨named, rfl⟩
    | _ => trivial

/-- All that happens to shared stores comes to requests. What these store under a key is made by the analyzer of the
project, or stored by others. -/
theorem share_issues (compiler : Compiler) {accesses : List (Timestamp × Access)}
    (others : ∀ entry ∈ accesses, ∀ analysis digest, entry.2.Stores key analysis → allowed analysis digest)
    (workspace : Workspace) :
    Issues allowed key workspace.artifacts (share project compiler workspace accesses).artifacts := by
  induction accesses generalizing workspace with
  | nil => exact .refl _
  | cons entry rest ih =>
    obtain ⟨first, later⟩ := List.forall_mem_cons.mp others
    exact (Access.apply_issues storesNothing allows compiler entry.1 first workspace).trans (ih later _)

end

end Project
end FreshDocs
