import FreshDocs.Batch.Regenerator
import FreshDocs.Project
import FreshDocs.Sync.Hub
/-!
The regenerator of a project: it renders what a batch has touched and hands the documents to the
hub as generated content.
-/

namespace FreshDocs

namespace Publisher

/-- What a publisher acts on. -/
abbrev World := Workspace × Sync.Hub

def publish (now : Timestamp) (scope : Sync.Scope) (document : Document) (hub : Sync.Hub) :
    Sync.Hub :=
  let (revision, hub) := hub.draft now scope document.path document.content .auto
  (hub.submit now revision).2

def publishSection (project : Project) (now : Timestamp) (part : Section) (world : World) :
    Except Project.Error Unit × World :=
  match project.renderSection now part world.1 with
  | (.error error, workspace) => (.error error, workspace, world.2)
  | (.ok document, workspace) => (.ok (), workspace, publish now .file document world.2)

/-- Publishes sections one after the other, until one fails. Each that was published goes
through `published`. -/
def publishSections (project : Project) (now : Timestamp)
    (published : Section → Workspace → Workspace) :
    List Section → World → Except Project.Error Unit × World
  | [], world => (.ok (), world)
  | part :: rest, world =>
    match publishSection project now part world with
    | (.error error, world) => (.error error, world)
    | (.ok (), workspace, hub) =>
      publishSections project now published rest (published part workspace, hub)

def publishAll (project : Project) (now : Timestamp) (world : World) :
    Except Project.Error Unit × World :=
  match project.renderOverview now world.1 with
  | (.error error, workspace) => (.error error, workspace, world.2)
  | (.ok document, workspace) =>
    publishSections project now (fun _ workspace => workspace) workspace.sections.all
      (workspace, publish now .project document world.2)

def compileAll (now : Timestamp) : List String → Workspace → Except Project.Error Unit × Workspace
  | [], workspace => (.ok (), workspace)
  | path :: rest, workspace =>
    match Project.template now ⟨path⟩ workspace with
    | (.error error, workspace) => (.error error, workspace)
    | (.ok _, workspace) => compileAll now rest workspace

/-- Whether a section is made with a template, named as it is or by its key. -/
def usesTemplate (project : Project) (template : String) (part : Section) : Bool :=
  part.template.any fun id => id = template || (project.root.join ⟨id⟩).key = template

def stamp (now : Timestamp) (part : Section) (workspace : Workspace) : Workspace :=
  { workspace with sections := workspace.sections.markUpdated part.id now }

/-- Compiles templates and publishes the sections that are made with them. -/
def publishTemplates (project : Project) (now : Timestamp) (templates : List String)
    (world : World) : Except Project.Error Unit × World :=
  match compileAll now templates world.1 with
  | (.error error, workspace) => (.error error, workspace, world.2)
  | (.ok (), workspace) =>
    let affected := workspace.sections.all.filter fun part =>
      templates.any (usesTemplate project · part)
    publishSections project now (stamp now) affected (workspace, world.2)

def act (project : Project) (now : Timestamp) (world : World) :
    Batch.Job → Except Project.Error Unit × World
  | .everything => publishAll project now world
  | .single part => publishSection project now part world
  | .templates paths => publishTemplates project now paths world

/-- The regenerator that publishes through a hub. It acts at once. -/
def regenerator (project : Project) : Batch.Regenerator Sync.Hub where
  start _ _ hub := (0, hub)
  act job now world :=
    match act project now world job with
    | (.ok (), world) => (.done, world)
    | (.error error, world) => (.failed error.message, world)

end Publisher
end FreshDocs
