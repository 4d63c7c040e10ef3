import FreshDocs.Proofs.ProjectFreshness
import FreshDocs.Proofs.ProjectSnapshots
import FreshDocs.Proofs.ProjectSteps
import FreshDocs.Proofs.SnapshotContents

/-! What a project answers about a directory, and what its requests leave among the snapshots. A request
leaves snapshots that were there before, and those that it makes of the files as they are. -/

namespace FreshDocs

namespace Snapshots

/-- The second snapshots are some of the first ones, and new ones that were made in a certain way. -/
structure Renews (made : String → Snapshot → Prop) (before after : Snapshots) : Prop where
  limits : after.store.limits = before.store.limits
  steps : Store.Steps before.store after.store
  entries : ∀ key entry, after.store.find? key = some entry →
    (∃ tick, before.store.find? key = some { entry with tick }) ∨ made key entry.value

variable {made : String → Snapshot → Prop}

theorem Thins.renews {before after : Snapshots} (thins : Thins before after) : Renews made before after :=
  ⟨thins.retains.limits, thins.steps, fun key entry found => .inl (thins.retains.entries key entry found)⟩

theorem Renews.of_eq {before after : Snapshots} (same : after = before) : Renews made before after := by
  subst same
  exact (Thins.refl after).renews

theorem Renews.trans {first second third : Snapshots} (one : Renews made first second) (two : Renews made second third) :
    Renews made first third := by
  refine ⟨two.limits.trans one.limits, one.steps.trans two.steps, ?_⟩
  intro key entry found
  rcases two.entries key entry found with ⟨tick, older⟩ | new
  · exact one.entries key { entry with tick } older
  · exact .inr new

theorem Renews.set {now : Timestamp} {cache : Snapshots} {project : Path} {aggregate : Json} {manifest : Manifest}
    (holds : made project.key { project, aggregate, manifest, updatedAt := now }) :
    Renews made cache (cache.set now project aggregate manifest).2 := by
  refine ⟨Store.limits_set _ _ _ _ _, Store.steps_set _ _ _ _ _, ?_⟩
  intro key entry found
  rcases Store.find?_set found with ⟨rfl, value, -⟩ | older
  · exact .inr (value ▸ holds)
  · exact .inl older

end Snapshots

namespace Project

structure Made (project : Project) (files : Files) (key : String) (snapshot : Snapshot) : Prop where
  named : snapshot.project.key = key
  shape : project.snapshotOf files snapshot.project = .ok { snapshot with updatedAt := .epoch }

/-! ### Requests that leave the files and the snapshots alone -/

structure Leaves (before after : Workspace) : Prop where
  files : after.files = before.files
  snapshots : after.snapshots = before.snapshots

theorem Leaves.trans {first second third : Workspace} (one : Leaves first second) (two : Leaves second third) :
    Leaves first third :=
  ⟨two.files.trans one.files, two.snapshots.trans one.snapshots⟩

section
variable {project : Project} {compiler : Compiler} {now : Timestamp} (pure : project.analyzer.Pure)
include pure

theorem Step.leaves {before after : Workspace} (step : project.Step compiler now before after) : Leaves before after := by
  cases step with
  | lookup | lookupTemplate | storeTemplate => exact ⟨rfl, rfl⟩
  | @analyze path =>
    obtain ⟨analyzed, quiet⟩ := pure.quiet now path before
    rw [quiet]
    exact ⟨rfl, rfl⟩
  | @store path _ after _ _ supported live found =>
    obtain ⟨analyzed, quiet⟩ := pure.quiet now path before
    obtain rfl : after = { before with analyzed } := by rwa [found] at quiet
    exact ⟨rfl, rfl⟩

theorem Steps.leaves {before after : Workspace} (steps : project.Steps compiler now before after) :
    Leaves before after := by
  induction steps with
  | refl => exact ⟨rfl, rfl⟩
  | tail _ step ih => exact ih.trans (step.leaves pure)

end

/-! ### Directories -/

section
variable {project : Project} {compiler : Compiler} {seen : ByteArray → Prop} {workspace : Workspace}

private theorem keyed_aggregated (aggregates : project.analyzer.Aggregates) (directory : Path) {analyses others : List Analysis}
    (same : analyses.map Analysis.keyed = others.map Analysis.keyed) :
    project.aggregated directory analyses = project.aggregated directory others := by
  have timeless : analyses.map Analysis.timeless = others.map Analysis.timeless := by
    have reduced (analyses : List Analysis) : analyses.map Analysis.timeless =
        (analyses.map Analysis.keyed).map fun analysis => { analysis with stamp := { analysis.stamp with modified := .epoch } } := by
      rw [List.map_map]
      rfl
    rw [reduced, reduced, same]
  have manifests : manifest analyses = manifest others := by
    rw [← manifest_timeless, timeless, manifest_timeless]
  simp only [aggregated, aggregates.aggregate rfl timeless, manifests]

/-- A snapshot that is made anew is the one that is made without stores, and it is stored. -/
theorem rebuild_answers (pure : project.analyzer.Pure) (aggregates : project.analyzer.Aggregates) (apart : Apart seen)
    (genuine : workspace.Genuine project.analyzer compiler seen) (now : Timestamp) (directory : Path) :
    Answers project compiler seen Snapshot.keyed workspace (project.rebuild now directory workspace)
        (project.snapshotOf workspace.files directory) ∧
      Snapshots.Renews (project.Made workspace.files) workspace.snapshots (project.rebuild now directory workspace).2.snapshots := by
  simp only [rebuild, snapshotOf]
  cases sources : project.sourceFiles workspace.files directory with
  | error error => exact ⟨⟨rfl, rfl, genuine⟩, .of_eq rfl⟩
  | ok paths =>
    obtain ⟨alike, files, kept⟩ := analyses_answers pure apart genuine now paths
    have left := ((analyses_steps project compiler now paths workspace).leaves pure).snapshots
    dsimp only
    rcases result : project.analyses now paths workspace with ⟨answer, after⟩
    rw [result] at alike files kept left
    cases answer with
    | error error =>
      obtain ⟨same, shape, keyed⟩ := alike.error
      rw [shape]
      exact ⟨⟨congrArg Except.error keyed, files, kept⟩, .of_eq left⟩
    | ok analyses =>
      obtain ⟨same, shape, keyed⟩ := alike.ok
      have equal := keyed_aggregated aggregates directory keyed
      rw [shape]
      refine ⟨⟨?_, files, kept.narrow (.refl _) rfl⟩, ?_⟩
      · simp only [Alike, Except.map, ← equal]
        rfl
      · dsimp only
        rw [left]
        refine .set ⟨rfl, ?_⟩
        simp only [snapshotOf, sources, shape, Except.map, ← equal]
        rfl

private theorem snapshot_renews (pure : project.analyzer.Pure) (aggregates : project.analyzer.Aggregates) (apart : Apart seen)
    (genuine : workspace.Genuine project.analyzer compiler seen) (now : Timestamp) (directory : Path) :
    Snapshots.Renews (project.Made workspace.files) workspace.snapshots (project.snapshot now directory workspace).2.snapshots := by
  have thins : Snapshots.Renews (project.Made workspace.files) workspace.snapshots (lookupSnapshot now directory workspace).2.snapshots :=
    (Snapshots.Thins.get workspace.files now workspace.snapshots directory).renews
  have kept : (lookupSnapshot now directory workspace).2.Genuine project.analyzer compiler seen := genuine.narrow (.refl _) rfl
  have files : (lookupSnapshot now directory workspace).2.files = workspace.files := rfl
  simp only [snapshot]
  generalize lookupSnapshot now directory workspace = result at thins kept files ⊢
  obtain ⟨answer, after⟩ := result
  cases answer with
  | error error => exact thins
  | ok found =>
    cases found with
    | some snapshot => exact thins
    | none =>
      have renews := (rebuild_answers pure aggregates apart kept now directory).2
      dsimp only at files thins ⊢
      rw [files] at renews
      exact thins.trans renews

/-- A directory is answered for by a stored snapshot whose manifest is live, or as without stores. -/
theorem snapshot_cases (pure : project.analyzer.Pure) (aggregates : project.analyzer.Aggregates) (apart : Apart seen)
    (genuine : workspace.Genuine project.analyzer compiler seen) (now : Timestamp) (directory : Path) :
    Alike Snapshot.keyed (project.snapshot now directory workspace).1 (project.snapshotOf workspace.files directory) ∨
      ∃ entry, workspace.snapshots.store.find? directory.key = some entry ∧
        workspace.snapshots.store.isExpired now entry = false ∧
        ((∃ error, Snapshots.verify workspace.files entry.value.manifest.toList = .error error) ∨
          Snapshots.verify workspace.files entry.value.manifest.toList = .ok true ∧
            (project.snapshot now directory workspace).1 = .ok entry.value) := by
  rcases Snapshots.get_cases workspace.files now workspace.snapshots directory with missed | ⟨entry, found, fresh, outcome⟩
  · have kept : (lookupSnapshot now directory workspace).2.Genuine project.analyzer compiler seen := genuine.narrow (.refl _) rfl
    left
    simp only [snapshot, lookupSnapshot, missed]
    exact (rebuild_answers pure aggregates apart kept now directory).1.alike
  · refine .inr ⟨entry, found, fresh, ?_⟩
    rcases outcome with ⟨error, failed, -⟩ | ⟨checked, served⟩
    · exact .inl ⟨error, failed⟩
    · refine .inr ⟨checked, ?_⟩
      simp only [snapshot, lookupSnapshot, served]
      rfl

/-! ### All requests -/

theorem apply_renews (analyzes : project.analyzer.Pure) (aggregates : project.analyzer.Aggregates) (apart : Apart seen)
    (genuine : workspace.Genuine project.analyzer compiler seen) (now : Timestamp) (request : Request) :
    Snapshots.Renews (project.Made workspace.files) workspace.snapshots (request.apply project compiler now workspace).snapshots := by
  cases request with
  | analysis path => exact .of_eq ((analysis_steps project compiler now path workspace).leaves analyzes).snapshots
  | template path => exact .of_eq ((templateBy_steps project compiler now path workspace).leaves analyzes).snapshots
  | renderSection part =>
    exact .of_eq ((renderSectionBy_steps project compiler now part workspace).leaves analyzes).snapshots
  | snapshot directory => exact snapshot_renews analyzes aggregates apart genuine now directory
  | invalidate | invalidateAll | remove | invalidateTemplate | invalidateTemplates | sweep | clear | alter => exact .of_eq rfl
  | invalidateSnapshot directory => exact (Snapshots.Thins.delete _ _).renews
  | invalidateUncovered keys => exact (Snapshots.Thins.dropMissing now keys _ _).renews
  | sweepSnapshots => exact (Snapshots.Thins.sweep now _).renews
  | clearSnapshots => exact (Snapshots.Thins.clear _).renews

end

section
variable {project : Project} (pure : project.analyzer.Pure)
include pure

/-- Only a request to alter files changes them. -/
theorem apply_files (compiler : Compiler) (now : Timestamp) (workspace : Workspace) {request : Request}
    (steady : ∀ files, request ≠ .alter files) : (request.apply project compiler now workspace).files = workspace.files := by
  cases request with
  | analysis path => exact ((analysis_steps project compiler now path workspace).leaves pure).files
  | template path => exact ((templateBy_steps project compiler now path workspace).leaves pure).files
  | renderSection part => exact ((renderSectionBy_steps project compiler now part workspace).leaves pure).files
  | snapshot directory =>
    obtain ⟨looked, after, steps, snapshots, same⟩ := snapshot_steps project compiler now directory workspace
    simp only [Request.apply, same]
    exact (steps.leaves pure).files
  | alter files => exact (steady files rfl).elim
  | invalidate | invalidateAll | remove | invalidateTemplate | invalidateTemplates | sweep | clear | invalidateSnapshot
  | invalidateUncovered | sweepSnapshots | clearSnapshots => rfl

end

end Project
end FreshDocs
