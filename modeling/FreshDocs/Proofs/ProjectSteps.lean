import FreshDocs.Project
import Mathlib.Logic.Relation

/-! What a project does to a workspace while it answers, one step after the other. What each step keeps is kept
whatever is asked for. -/

namespace FreshDocs.Project
open Relation

/-- All that a project does to a workspace for an analysis or a template. -/
inductive Step (project : Project) (compiler : Compiler) (now : Timestamp) : Workspace → Workspace → Prop where
  | lookup (path : Path) (workspace : Workspace) : Step project compiler now workspace (lookup now path workspace).2
  /-- The analyzer goes over a file, and nothing of this is stored. -/
  | analyze {path : Path} {workspace : Workspace} {stamp : FileStamp} (supported : project.analyzer.supports path = true)
      (live : FileStamp.read workspace.files path = .ok (some stamp)) :
      Step project compiler now workspace (project.analyzer.analyze now path workspace).2
  /-- What the analyzer finds in a file is stored, with the stamp that the file had before. -/
  | store {path : Path} {workspace after : Workspace} {stamp : FileStamp} {finding : Finding}
      (supported : project.analyzer.supports path = true)
      (live : FileStamp.read workspace.files path = .ok (some stamp))
      (found : project.analyzer.analyze now path workspace = (.ok finding, after)) :
      Step project compiler now workspace
        { after with artifacts := (after.artifacts.set after.files now path
            (.ofStamp stamp finding.result finding.dependencies) finding.dependencies).2 }
  | lookupTemplate (path : Path) (workspace : Workspace) :
      Step project compiler now workspace (lookupTemplate now path workspace).2
  | storeTemplate {path : Path} {workspace : Workspace} {source compiled : String}
      (read : workspace.files.readText path = .ok source) (made : compiler path source = .ok compiled) :
      Step project compiler now workspace
        { workspace with artifacts := (workspace.artifacts.setTemplate workspace.files now path
            { path, sourceDigest := Digest.ofText source, compiled }).2 }

abbrev Steps (project : Project) (compiler : Compiler) (now : Timestamp) : Workspace → Workspace → Prop :=
  ReflTransGen (project.Step compiler now)

section
variable {project : Project} {compiler : Compiler} {now : Timestamp}

/-- What is seen of a workspace stays the same if no step changes it. -/
theorem Steps.keeps {α : Type} {view : Workspace → α}
    (kept : ∀ before after, project.Step compiler now before after → view after = view before) {before after : Workspace}
    (steps : project.Steps compiler now before after) : view after = view before := by
  induction steps with
  | refl => rfl
  | tail _ step ih => exact (kept _ _ step).trans ih

end

section
variable (project : Project) (compiler : Compiler) (now : Timestamp)

private theorem analyze_steps {path : Path} (supported : project.analyzer.supports path = true) (workspace : Workspace) :
    project.Steps compiler now workspace (project.analyze now path workspace).2 := by
  simp only [analyze]
  split
  · exact .refl
  · exact .refl
  next stamp live =>
    have analyzed : project.Step compiler now workspace (project.analyzer.analyze now path workspace).2 :=
      .analyze supported live
    rcases result : project.analyzer.analyze now path workspace with ⟨answer, after⟩
    rw [result] at analyzed
    cases answer with
    | error error => exact .single analyzed
    | ok finding =>
      have stored := @Step.store project compiler now _ _ _ _ _ supported live result
      dsimp only
      split <;> exact .single stored

theorem analysis_steps (path : Path) (workspace : Workspace) :
    project.Steps compiler now workspace (project.analysis now path workspace).2 := by
  have looked : project.Steps compiler now workspace (lookup now path workspace).2 := .single (.lookup path workspace)
  simp only [analysis]
  generalize lookup now path workspace = result at looked ⊢
  obtain ⟨answer, after⟩ := result
  rcases answer with error | (_ | found)
  · exact looked
  · dsimp only
    split
    next supported => exact looked.trans (analyze_steps project compiler now supported after)
    next => exact looked
  · exact looked

theorem analyses_steps (paths : List Path) (workspace : Workspace) :
    project.Steps compiler now workspace (project.analyses now paths workspace).2 := by
  induction paths generalizing workspace with
  | nil => exact .refl
  | cons path rest ih =>
    have first := analysis_steps project compiler now path workspace
    rw [analyses]
    generalize project.analysis now path workspace = result at first ⊢
    obtain ⟨answer, after⟩ := result
    cases answer with
    | error error => exact first
    | ok found => exact first.trans (ih after)

theorem templateBy_steps (path : Path) (workspace : Workspace) :
    project.Steps compiler now workspace (templateBy compiler now path workspace).2 := by
  have looked : project.Steps compiler now workspace (lookupTemplate now path workspace).2 :=
    .single (.lookupTemplate path workspace)
  simp only [templateBy]
  generalize lookupTemplate now path workspace = result at looked ⊢
  obtain ⟨answer, after⟩ := result
  rcases answer with error | (_ | found)
  · exact looked
  · refine looked.trans ?_
    simp only [compile]
    split
    next => exact .refl
    next source read =>
      split
      next => exact .refl
      next compiled made =>
        have stored := @Step.storeTemplate project compiler now _ _ _ _ read made
        split <;> exact .single stored
  · exact looked

theorem renderSectionBy_steps (part : Section) (workspace : Workspace) :
    project.Steps compiler now workspace (project.renderSectionBy compiler now part workspace).2 := by
  have analyzed := analyses_steps project compiler now (part.files.toList.map project.resolve) workspace
  simp only [renderSectionBy]
  generalize project.analyses now (part.files.toList.map project.resolve) workspace = result at analyzed ⊢
  obtain ⟨answer, after⟩ := result
  cases answer with
  | error error => exact analyzed
  | ok analyses =>
    have templated : project.Steps compiler now after (project.sectionTemplate compiler now part after).2 := by
      unfold sectionTemplate
      split
      · exact .refl
      · exact templateBy_steps project compiler now _ after
    dsimp only
    generalize project.sectionTemplate compiler now part after = result at templated ⊢
    obtain ⟨answer, last⟩ := result
    cases answer <;> exact analyzed.trans templated

/-- For a snapshot there are no other steps, apart from what is done to the stored snapshots. -/
theorem snapshot_steps (directory : Path) (workspace : Workspace) :
    ∃ looked after, project.Steps compiler now { workspace with snapshots := looked } after ∧
      ∃ snapshots, (project.snapshot now directory workspace).2 = { after with snapshots } := by
  have looked : ∃ snapshots, (lookupSnapshot now directory workspace).2 = { workspace with snapshots } := ⟨_, rfl⟩
  simp only [snapshot]
  generalize lookupSnapshot now directory workspace = result at looked ⊢
  obtain ⟨answer, first⟩ := result
  obtain ⟨snapshots, same⟩ := looked
  obtain rfl : first = { workspace with snapshots } := same
  refine ⟨snapshots, ?_⟩
  rcases answer with error | (_ | found)
  · exact ⟨_, .refl, snapshots, rfl⟩
  · simp only [rebuild]
    split
    · exact ⟨_, .refl, snapshots, rfl⟩
    next paths _ =>
      have analyzed := analyses_steps project compiler now paths { workspace with snapshots }
      generalize project.analyses now paths { workspace with snapshots } = result at analyzed ⊢
      obtain ⟨answer, after⟩ := result
      cases answer <;> exact ⟨after, analyzed, _, rfl⟩
  · exact ⟨_, .refl, snapshots, rfl⟩

end
end FreshDocs.Project
