import FreshDocs.Proofs.PublisherCalls
import FreshDocs.Proofs.SectionRegistry

/-! What a publisher renders for a job and hands to the hub. A job that ends well has rendered all sections that it is
for, and each document that was rendered was handed over as it is, in this order. -/

namespace FreshDocs.Publisher

variable {project : Project} {now : Timestamp}

/-- Sections with the documents that are rendered of them, one after the other, until one fails. Each that was rendered
goes through `published`. -/
def renderings (project : Project) (now : Timestamp) (published : Section → Workspace → Workspace) :
    List Section → Workspace → List (Section × Document)
  | [], _ => []
  | part :: rest, workspace =>
    match project.renderSection now part workspace with
    | (.error _, _) => []
    | (.ok document, workspace) => (part, document) :: renderings project now published rest (published part workspace)

def affected (project : Project) (templates : List String) (sections : Sections) : List Section :=
  sections.all.filter fun part => templates.any (usesTemplate project · part)

def overview? (project : Project) (now : Timestamp) (workspace : Workspace) : Batch.Job → Option Document
  | .everything => (project.renderOverview now workspace).1.toOption
  | .single _ | .templates _ => none

def rendered (project : Project) (now : Timestamp) (workspace : Workspace) : Batch.Job → List (Section × Document)
  | .everything =>
    match project.renderOverview now workspace with
    | (.error _, _) => []
    | (.ok _, workspace) => renderings project now (fun _ workspace => workspace) workspace.sections.all workspace
  | .single part => renderings project now (fun _ workspace => workspace) [part] workspace
  | .templates paths =>
    match compileAll now paths workspace with
    | (.error _, _) => []
    | (.ok (), workspace) => renderings project now (stamp now) (affected project paths workspace.sections) workspace

def documents (project : Project) (now : Timestamp) (workspace : Workspace) (job : Batch.Job) :
    List (Sync.Scope × Document) :=
  (overview? project now workspace job).toList.map (.project, ·) ++
    (rendered project now workspace job).map fun rendering => (.file, rendering.2)

def handOver (now : Timestamp) (documents : List (Sync.Scope × Document)) (hub : Sync.Hub) : Sync.Hub :=
  documents.foldl (fun hub entry => publish now entry.1 entry.2 hub) hub

def site : Project :=
  { root := ⟨"/"⟩ }

/-! ### Each document is handed over -/

private theorem publishSections_hub (published : Section → Workspace → Workspace) (parts : List Section) (world : World) :
    (publishSections project now published parts world).2.2 =
      handOver now ((renderings project now published parts world.1).map fun rendering => (.file, rendering.2)) world.2 := by
  induction parts generalizing world with
  | nil => rfl
  | cons part rest ih =>
    rw [publishSections, renderings, publishSection]
    obtain ⟨answer, workspace⟩ := project.renderSection now part world.1
    cases answer with
    | error error => rfl
    | ok document => exact ih _

private theorem publishSections_single (published : Section → Workspace → Workspace) (part : Section) (world : World) :
    (publishSections project now published [part] world).2.2 = (publishSection project now part world).2.2 ∧
      (publishSections project now published [part] world).1 = (publishSection project now part world).1 := by
  simp only [publishSections]
  generalize publishSection project now part world = result
  obtain ⟨answer, workspace, hub⟩ := result
  cases answer <;> exact ⟨rfl, rfl⟩

/-- What a job does to a hub is that it hands over the documents that are made for it. -/
theorem act_hub (job : Batch.Job) (world : World) :
    ((regenerator project).act job now world).2.2 = handOver now (documents project now world.1 job) world.2 := by
  have acted : (act project now world job).2.2 = handOver now (documents project now world.1 job) world.2 := by
    cases job with
    | single part => exact (publishSections_single _ part world).1.symm.trans (publishSections_hub _ [part] world)
    | everything =>
      simp only [act, publishAll, documents, overview?, rendered]
      obtain ⟨answer, workspace⟩ := project.renderOverview now world.1
      cases answer with
      | error error => rfl
      | ok document => exact publishSections_hub _ _ _
    | templates paths =>
      simp only [act, publishTemplates, documents, overview?, rendered]
      obtain ⟨answer, workspace⟩ := compileAll now paths world.1
      cases answer with
      | error error => rfl
      | ok done => exact publishSections_hub _ _ _
  rw [← acted, regenerator]
  dsimp only
  obtain ⟨answer, after⟩ := act project now world job
  cases answer <;> rfl

/-! ### A job that ends well -/

private theorem renderings_of_ok {published : Section → Workspace → Workspace} {parts : List Section} {world : World}
    (well : (publishSections project now published parts world).1 = .ok ()) :
    (renderings project now published parts world.1).map (·.1) = parts := by
  induction parts generalizing world with
  | nil => rfl
  | cons part rest ih =>
    rw [publishSections, publishSection] at well
    rw [renderings]
    generalize project.renderSection now part world.1 = result at well ⊢
    obtain ⟨answer, workspace⟩ := result
    cases answer with
    | error error => cases well
    | ok document => exact congrArg (part :: ·) (ih well)

def subjects (project : Project) (sections : Sections) : Batch.Job → List Section
  | .everything => sections.all
  | .single part => [part]
  | .templates paths => affected project paths sections

theorem act_done {job : Batch.Job} {world : World} :
    ((regenerator project).act job now world).1 = .done ↔ (act project now world job).1 = .ok () := by
  simp only [regenerator]
  generalize act project now world job = result
  obtain ⟨answer, after⟩ := result
  cases answer <;> simp

theorem overview_of_ok {world : World} (well : (publishAll project now world).1 = .ok ()) :
    ∃ overview, (project.renderOverview now world.1).1 = .ok overview := by
  rw [publishAll] at well
  generalize project.renderOverview now world.1 = result at well ⊢
  obtain ⟨answer, workspace⟩ := result
  cases answer with
  | error error => cases well
  | ok overview => exact ⟨overview, rfl⟩

theorem rendered_of_done (aside : project.analyzer.Aside) {job : Batch.Job} {world : World}
    (done : ((regenerator project).act job now world).1 = .done) :
    (rendered project now world.1 job).map (·.1) = subjects project world.1.sections job := by
  have well := act_done.mp done
  cases job with
  | single part => exact renderings_of_ok ((publishSections_single _ part world).2.trans well)
  | everything =>
    have same := Project.renderOverview_sections now aside world.1
    simp only [act, publishAll] at well
    simp only [rendered, subjects]
    generalize project.renderOverview now world.1 = result at well same ⊢
    obtain ⟨answer, workspace⟩ := result
    cases answer with
    | error error => cases well
    | ok document =>
      change workspace.sections = world.1.sections at same
      rw [← same]
      exact renderings_of_ok well
  | templates paths =>
    have same := compileAll_sections now paths world.1
    simp only [act, publishTemplates] at well
    simp only [rendered, subjects]
    generalize compileAll now paths world.1 = result at well same ⊢
    obtain ⟨answer, workspace⟩ := result
    cases answer with
    | error error => cases well
    | ok done =>
      change workspace.sections = world.1.sections at same
      rw [← same]
      exact renderings_of_ok well

/-! ### Paths of documents -/

private theorem path_of_rendered {part : Section} {workspace : Workspace} {document : Document}
    (rendered : (project.renderSection now part workspace).1 = .ok document) :
    document.path = project.markdown.documentPath part.id := by
  simp only [Project.renderSection, Project.renderSectionBy] at rendered
  generalize project.analyses now (part.files.toList.map project.resolve) workspace = analyzed at rendered
  obtain ⟨analyses, workspace⟩ := analyzed
  cases analyses with
  | error error => cases rendered
  | ok analyses =>
    dsimp only at rendered
    generalize project.sectionTemplate Markdown.compile now part workspace = found at rendered
    obtain ⟨template, workspace⟩ := found
    cases template with
    | error error => cases rendered
    | ok template =>
      dsimp only [Markdown.section?] at rendered
      split at rendered
      · cases rendered
        rfl
      · cases rendered
      · cases rendered
        rfl

private theorem paths_renderings (published : Section → Workspace → Workspace) (parts : List Section) (workspace : Workspace)
    {rendering : Section × Document} (member : rendering ∈ renderings project now published parts workspace) :
    rendering.2.path = project.markdown.documentPath rendering.1.id := by
  induction parts generalizing workspace with
  | nil => cases member
  | cons part rest ih =>
    rw [renderings] at member
    have path := @path_of_rendered project now part workspace
    generalize project.renderSection now part workspace = result at member path
    obtain ⟨answer, after⟩ := result
    cases answer with
    | error error => cases member
    | ok document =>
      rcases List.mem_cons.mp member with rfl | later
      · exact path rfl
      · exact ih _ later

theorem path_of_member {job : Batch.Job} {workspace : Workspace} {rendering : Section × Document}
    (member : rendering ∈ rendered project now workspace job) :
    rendering.2.path = project.markdown.documentPath rendering.1.id := by
  cases job with
  | single part => exact paths_renderings _ _ _ member
  | everything =>
    simp only [rendered] at member
    split at member
    · cases member
    · exact paths_renderings _ _ _ member
  | templates paths =>
    simp only [rendered] at member
    split at member
    · cases member
    · exact paths_renderings _ _ _ member

theorem path_of_overview {workspace : Workspace} {document : Document}
    (rendered : (project.renderOverview now workspace).1 = .ok document) :
    document.path = project.markdown.documentPath "index" := by
  simp only [Project.renderOverview] at rendered
  generalize project.snapshot now project.root workspace = result at rendered
  obtain ⟨answer, after⟩ := result
  cases answer with
  | error error => cases rendered
  | ok snapshot =>
    cases rendered
    rfl

end FreshDocs.Publisher

namespace FreshDocs.Markdown

/-- Documents of different names have different paths. -/
theorem documentPath_injective (markdown : Markdown) {first second : String}
    (same : markdown.documentPath first = markdown.documentPath second) : first = second := by
  have texts := congrArg String.toList same
  simp only [documentPath, String.toList_append, List.append_assoc] at texts
  exact String.toList_inj.mp (List.append_cancel_right (List.append_cancel_left (List.append_cancel_left texts)))

end FreshDocs.Markdown
