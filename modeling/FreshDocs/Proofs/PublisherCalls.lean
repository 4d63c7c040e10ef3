import FreshDocs.Proofs.BatchWaits
import FreshDocs.Proofs.HubCalls
import FreshDocs.Proofs.ProjectSteps
import FreshDocs.Publisher

/-! What a publisher does besides making documents: it stamps sections, without registering or removing any, and it
hands documents to the hub as generated content, one call for each. -/

namespace FreshDocs
open Relation
open Sync.Hub (Gets)

/-- An analyzer has no part in which sections are registered: that is for those who call the engine. -/
def Analyzer.Aside (analyzer : Analyzer) : Prop :=
  ∀ (now : Timestamp) (path : Path) (workspace : Workspace),
    (analyzer.analyze now path workspace).2.sections = workspace.sections

theorem Analyzer.stats_aside : Analyzer.stats.Aside :=
  fun _ _ _ => rfl

namespace Project

section
variable {project : Project} {compiler : Compiler} {now : Timestamp}

theorem Step.sections (aside : project.analyzer.Aside) {before after : Workspace}
    (step : project.Step compiler now before after) : after.sections = before.sections := by
  cases step with
  | lookup | lookupTemplate | storeTemplate => rfl
  | analyze => exact aside _ _ _
  | @store path _ after _ _ supported live found =>
    have kept := aside now path before
    rwa [found] at kept

theorem Steps.sections (aside : project.analyzer.Aside) {before after : Workspace}
    (steps : project.Steps compiler now before after) : after.sections = before.sections :=
  steps.keeps fun _ _ step => step.sections aside

end

section
variable (now : Timestamp)

private theorem templateBy_sections (compiler : Compiler) (path : Path) (workspace : Workspace) :
    (templateBy compiler now path workspace).2.sections = workspace.sections :=
  -- no analyzer takes part in it, so that any project will do
  (templateBy_steps { root := path } compiler now path workspace).sections Analyzer.stats_aside

variable {project : Project} (aside : project.analyzer.Aside)
include aside

theorem renderSection_sections (part : Section) (workspace : Workspace) :
    (project.renderSection now part workspace).2.sections = workspace.sections :=
  (renderSectionBy_steps project Markdown.compile now part workspace).sections aside

theorem renderOverview_sections (workspace : Workspace) :
    (project.renderOverview now workspace).2.sections = workspace.sections := by
  obtain ⟨looked, after, steps, snapshots, same⟩ := snapshot_steps project Markdown.compile now project.root workspace
  rw [renderOverview, same]
  exact steps.sections aside

end

end Project

/-! ### Documents -/

namespace Publisher

/-- Documents are handed to the hub while no sections are registered or removed. -/
structure Produces (before after : World) : Prop where
  count : after.1.sections.count = before.1.sections.count
  hub : Gets [] before.2 after.2

theorem Produces.trans {first second third : World} (one : Produces first second) (two : Produces second third) :
    Produces first third :=
  ⟨two.count.trans one.count, one.hub.trans two.hub⟩

private theorem publish_gets (now : Timestamp) (scope : Sync.Scope) (document : Document) (hub : Sync.Hub) :
    Gets [] hub (publish now scope document hub) :=
  .call now hub (.publish scope document.path document.content .auto)

section
variable {project : Project} (aside : project.analyzer.Aside) (now : Timestamp)
include aside

private theorem publishSection_produces (part : Section) (world : World) :
    Produces world (publishSection project now part world).2 := by
  have rendered := Project.renderSection_sections now aside part world.1
  simp only [publishSection]
  generalize project.renderSection now part world.1 = result at rendered ⊢
  obtain ⟨answer, after⟩ := result
  have count : after.sections.count = world.1.sections.count := congrArg Sections.count rendered
  cases answer with
  | error error => exact ⟨count, .refl _⟩
  | ok document => exact ⟨count, publish_gets now .file document world.2⟩

private theorem publishSections_produces {published : Section → Workspace → Workspace}
    (kept : ∀ part workspace, (published part workspace).sections.count = workspace.sections.count)
    (parts : List Section) (world : World) : Produces world (publishSections project now published parts world).2 := by
  induction parts generalizing world with
  | nil => exact ⟨rfl, .refl _⟩
  | cons part rest ih =>
    have produced := publishSection_produces aside now part world
    rw [publishSections]
    generalize publishSection project now part world = result at produced ⊢
    obtain ⟨answer, workspace, hub⟩ := result
    cases answer with
    | error error => exact produced
    | ok done =>
      have stamped : Produces (workspace, hub) (published part workspace, hub) := ⟨kept part workspace, .refl hub⟩
      exact (produced.trans stamped).trans (ih (published part workspace, hub))

private theorem publishAll_produces (world : World) : Produces world (publishAll project now world).2 := by
  have rendered := Project.renderOverview_sections now aside world.1
  simp only [publishAll]
  generalize project.renderOverview now world.1 = result at rendered ⊢
  obtain ⟨answer, workspace⟩ := result
  have count : workspace.sections.count = world.1.sections.count := congrArg Sections.count rendered
  cases answer with
  | error error => exact ⟨count, .refl _⟩
  | ok document =>
    have overview : Produces world (workspace, publish now .project document world.2) :=
      ⟨count, publish_gets now .project document world.2⟩
    exact overview.trans (publishSections_produces aside now (fun _ _ => rfl) workspace.sections.all _)

omit aside in
theorem compileAll_sections (paths : List String) (workspace : Workspace) :
    (compileAll now paths workspace).2.sections = workspace.sections := by
  induction paths generalizing workspace with
  | nil => rfl
  | cons path rest ih =>
    have compiled : (Project.template now ⟨path⟩ workspace).2.sections = workspace.sections :=
      Project.templateBy_sections now Markdown.compile ⟨path⟩ workspace
    rw [compileAll]
    generalize Project.template now ⟨path⟩ workspace = result at compiled ⊢
    obtain ⟨answer, after⟩ := result
    cases answer with
    | error error => exact compiled
    | ok template => exact (ih after).trans compiled

private theorem publishTemplates_produces (templates : List String) (world : World) :
    Produces world (publishTemplates project now templates world).2 := by
  have compiled := compileAll_sections now templates world.1
  simp only [publishTemplates]
  generalize compileAll now templates world.1 = result at compiled ⊢
  obtain ⟨answer, workspace⟩ := result
  have count : workspace.sections.count = world.1.sections.count := congrArg Sections.count compiled
  have first : Produces world (workspace, world.2) := ⟨count, .refl _⟩
  cases answer with
  | error error => exact first
  | ok done =>
    exact first.trans (publishSections_produces aside now (fun part workspace => Sections.count_markUpdated _ part.id now) _ _)

private theorem act_produces (job : Batch.Job) (world : World) :
    Produces world ((regenerator project).act job now world).2 := by
  have acted : Produces world (act project now world job).2 := by
    cases job with
    | everything => exact publishAll_produces aside now world
    | single part => exact publishSection_produces aside now part world
    | templates paths => exact publishTemplates_produces aside now paths world
  simp only [regenerator]
  generalize act project now world job = result at acted ⊢
  obtain ⟨answer, after⟩ := result
  cases answer <;> exact acted

omit now in
theorem regenerator_steady : (regenerator project).Steady :=
  fun job now world => (act_produces aside now job world).count

omit now in
/-- Whatever batches a publisher works on, what happens to its hub is that it gets documents. -/
theorem works_gets {before after : World} (works : ReflTransGen (regenerator project).Works before after) :
    Gets [] before.2 after.2 := by
  induction works with
  | refl => exact .refl _
  | tail _ work ih =>
    cases work with
    | starts | stamps | drops => exact ih
    | acts job now world => exact ih.trans (act_produces aside now job _).hub

end

end Publisher
end FreshDocs
