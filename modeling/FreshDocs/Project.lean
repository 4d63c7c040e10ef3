import FreshDocs.Analyzer
import FreshDocs.Render.Markdown
/-!
A project: source files below a root, read through the stores. Whatever is asked for is served
from a store where it still holds, and made and stored where it does not. The stamp of a file is
taken before the file is analyzed, so that a file that changes meanwhile is never stored under
its new digest.
-/

namespace FreshDocs

structure Project where
  root : Path
  /-- Names of files and directories that are passed over. -/
  ignored : List String := []
  analyzer : Analyzer := .stats
  markdown : Markdown := {}

namespace Project

inductive Error where
  | store (error : StoreError)
  | analysis (error : AnalysisError)
  | render (error : RenderError)
  /-- A directory could not be walked. -/
  | walk (path : Path) (fault : Fault)
  deriving DecidableEq

def Error.message : Error → String
  | .store error => s!"cache error: {error.message}"
  | .analysis error => s!"analysis failed: {error.message}"
  | .render error => s!"render failed: {error.message}"
  | .walk path fault =>
    s!"project walk failed: IO error for operation on {path.text}: {fault.text}"

def Error.kind : Error → String
  | .store _ => "Cache"
  | .analysis _ => "Analysis"
  | .render _ => "Render"
  | .walk .. => "Walk"

instance : ToJson Error := ⟨fun error => Json.failure error.kind error.message⟩

def Error.isTransient : Error → Bool
  | .store error => error.isTransient
  | .analysis error => error.isTransient
  | .render _ | .walk .. => false

/-- The project as a log shows it. -/
def inspect (project : Project) : String :=
  Text.inspectRecord "AnalysisService"
    [("root", Text.inspect project.root.text),
     ("ignore", Text.inspectList (project.ignored.map Text.inspect))] false

def resolve (project : Project) (name : String) : Path :=
  project.root.resolve ⟨name⟩

/-- Reads an analysis from the store. -/
def lookup (now : Timestamp) (path : Path) (workspace : Workspace) :
    Except StoreError (Option Analysis) × Workspace :=
  let (found, artifacts) := workspace.artifacts.get workspace.files now path
  (found, { workspace with artifacts })

/-- Analyzes a file and stores the result; nothing is found in a file that is not there. -/
def analyze (project : Project) (now : Timestamp) (path : Path) (workspace : Workspace) :
    Except Error (Option Analysis) × Workspace :=
  match FileStamp.read workspace.files path with
  | .error error => (.error (.store error), workspace)
  | .ok none => (.ok none, workspace)
  | .ok (some stamp) =>
    match project.analyzer.analyze now path workspace with
    | (.error error, workspace) =>
      (if error.isNotFound then .ok none else .error (.analysis error), workspace)
    | (.ok finding, workspace) =>
      let analysis := Analysis.ofStamp stamp finding.result finding.dependencies
      let (stored, artifacts) :=
        workspace.artifacts.set workspace.files now path analysis finding.dependencies
      let workspace := { workspace with artifacts }
      match stored with
      | .error error => (.error (.store error), workspace)
      | .ok _ => (.ok (some analysis), workspace)

/-- The analysis of a file; there is none for a file that is missing or not supported. -/
def analysis (project : Project) (now : Timestamp) (path : Path) (workspace : Workspace) :
    Except Error (Option Analysis) × Workspace :=
  match lookup now path workspace with
  | (.error error, workspace) => (.error (.store error), workspace)
  | (.ok (some found), workspace) => (.ok (some found), workspace)
  | (.ok none, workspace) =>
    if project.analyzer.supports path then project.analyze now path workspace
    else (.ok none, workspace)

def analyses (project : Project) (now : Timestamp) :
    List Path → Workspace → Except Error (List Analysis) × Workspace
  | [], workspace => (.ok [], workspace)
  | path :: rest, workspace =>
    match project.analysis now path workspace with
    | (.error error, workspace) => (.error error, workspace)
    | (.ok found, workspace) =>
      let (others, workspace) := project.analyses now rest workspace
      (others.map (found.toList ++ ·), workspace)

mutual

/-- The files at and below a node that lies at `path`. Entries whose name is ignored are passed
over with all that is below them. Every directory on the way is taken to be readable: the limit on
the length of a path is for lookups, and a walk goes on below it. -/
def walk (ignored : List String) (path : Path) : Node → List Path
  | .file .. => [path]
  | .directory entries => walkEntries ignored path entries

def walkEntries (ignored : List String) (path : Path) : List (String × Node) → List Path
  | [] => []
  | (name, node) :: rest =>
    let below := if ignored.contains name then [] else walk ignored (path.join ⟨name⟩) node
    below ++ walkEntries ignored path rest

end

/-- The supported files at and below `directory`, in order. -/
def sourceFiles (project : Project) (files : Files) (directory : Path) : Except Error (List Path) :=
  match files.node directory with
  | .error fault => .error (.walk directory fault)
  | .ok node =>
    let supported := (walk project.ignored directory node).filter project.analyzer.supports
    .ok (supported.mergeSort fun a b => (compare a b).isLE)

def manifest (analyses : List Analysis) : Manifest :=
  analyses.foldl (fun manifest analysis =>
    manifest.insert analysis.path.key analysis.stamp.digest) ∅

/-- Analyzes everything below `directory` and stores the aggregate. -/
def rebuild (project : Project) (now : Timestamp) (directory : Path) (workspace : Workspace) :
    Except Error Snapshot × Workspace :=
  match project.sourceFiles workspace.files directory with
  | .error error => (.error error, workspace)
  | .ok paths =>
    match project.analyses now paths workspace with
    | (.error error, workspace) => (.error error, workspace)
    | (.ok analyses, workspace) =>
      let aggregate := project.analyzer.aggregate directory analyses
      let (snapshot, snapshots) :=
        workspace.snapshots.set now directory aggregate (manifest analyses)
      (.ok snapshot, { workspace with snapshots })

def lookupSnapshot (now : Timestamp) (directory : Path) (workspace : Workspace) :
    Except Error (Option Snapshot) × Workspace :=
  let (found, snapshots) := workspace.snapshots.get workspace.files now directory
  (found.mapError .store, { workspace with snapshots })

/-- The aggregate of all that lies below `directory`. -/
def snapshot (project : Project) (now : Timestamp) (directory : Path) (workspace : Workspace) :
    Except Error Snapshot × Workspace :=
  match lookupSnapshot now directory workspace with
  | (.error error, workspace) => (.error error, workspace)
  | (.ok (some found), workspace) => (.ok found, workspace)
  | (.ok none, workspace) => project.rebuild now directory workspace

def lookupTemplate (now : Timestamp) (path : Path) (workspace : Workspace) :
    Except StoreError (Option Template) × Workspace :=
  let (found, artifacts) := workspace.artifacts.getTemplate workspace.files now path
  (found, { workspace with artifacts })

def compile (compiler : Compiler) (now : Timestamp) (path : Path) (workspace : Workspace) :
    Except Error (Option Template) × Workspace :=
  match workspace.files.readText path with
  | .error fault =>
    (if fault.isNotFound then .ok none else .error (.store (.unreadable path fault)), workspace)
  | .ok source =>
    match compiler path source with
    | .error error => (.error (.render error), workspace)
    | .ok compiled =>
      let template : Template := { path, sourceDigest := Digest.ofText source, compiled }
      let (stored, artifacts) :=
        workspace.artifacts.setTemplate workspace.files now path template
      let workspace := { workspace with artifacts }
      match stored with
      | .error error => (.error (.store error), workspace)
      | .ok _ => (.ok (some template), workspace)

/-- The template at `path` as a compiler makes it, if there is a file. -/
def templateBy (compiler : Compiler) (now : Timestamp) (path : Path) (workspace : Workspace) :
    Except Error (Option Template) × Workspace :=
  match lookupTemplate now path workspace with
  | (.error error, workspace) => (.error (.store error), workspace)
  | (.ok (some found), workspace) => (.ok (some found), workspace)
  | (.ok none, workspace) => compile compiler now path workspace

/-- The compiled template at `path`, if there is a file. -/
def template : Timestamp → Path → Workspace → Except Error (Option Template) × Workspace :=
  templateBy Markdown.compile

def sectionTemplate (project : Project) (compiler : Compiler) (now : Timestamp) (part : Section)
    (workspace : Workspace) : Except Error (Option Template) × Workspace :=
  match part.template with
  | none => (.ok none, workspace)
  | some name => templateBy compiler now (project.resolve name) workspace

/-- The document of a section, with its template as a compiler makes it. -/
def renderSectionBy (project : Project) (compiler : Compiler) (now : Timestamp) (part : Section)
    (workspace : Workspace) : Except Error Document × Workspace :=
  match project.analyses now (part.files.toList.map project.resolve) workspace with
  | (.error error, workspace) => (.error error, workspace)
  | (.ok analyses, workspace) =>
    match project.sectionTemplate compiler now part workspace with
    | (.error error, workspace) => (.error error, workspace)
    | (.ok template, workspace) =>
      ((project.markdown.section? part analyses template).mapError .render, workspace)

def renderSection (project : Project) :
    Timestamp → Section → Workspace → Except Error Document × Workspace :=
  project.renderSectionBy Markdown.compile

def renderOverview (project : Project) (now : Timestamp) (workspace : Workspace) :
    Except Error Document × Workspace :=
  let (snapshot, workspace) := project.snapshot now project.root workspace
  (snapshot.map project.markdown.overview, workspace)

end Project
end FreshDocs
