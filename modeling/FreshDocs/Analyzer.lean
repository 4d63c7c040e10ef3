import FreshDocs.Source.Stats
import FreshDocs.Workspace
/-!
Analyzers turn a file into a result with its dependencies, and the results of a project into an
aggregate. Two are built in: one counts lines, and one gives back the content of files with
dependencies that were declared beforehand.
-/

namespace FreshDocs

/-- What an analyzer finds in a file. -/
structure Finding where
  result : Json
  dependencies : List String := []

namespace Finding

instance : ToJson Finding where
  toJson finding := .object
    [("analysis", finding.result), ("dependencies", toJson finding.dependencies)]

/-- The figures of a text as those of the file at `path`. -/
def ofStats (path : Path) (text : String) : Finding :=
  let stats := Source.Stats.ofText path text
  { result := toJson stats, dependencies := stats.dependencies path }

end Finding

/-- Why a file could not be analyzed. -/
inductive AnalysisError where
  | unsupported (path : Path)
  | unreadable (path : Path) (fault : Fault)
  | failed (path : Path) (words : String)
  deriving DecidableEq

namespace AnalysisError

def message : AnalysisError → String
  | .unsupported path => s!"unsupported file: {path.text}"
  | .unreadable path fault => s!"cannot read {path.text}: {fault.text}"
  | .failed path words => s!"analysis of {path.text} failed: {words}"

def kind : AnalysisError → String
  | .unsupported _ => "Unsupported"
  | .unreadable .. => "Io"
  | .failed .. => "Failed"

instance : ToJson AnalysisError := ⟨fun error => Json.failure error.kind error.message⟩

def isNotFound : AnalysisError → Bool
  | .unreadable _ fault => fault.isNotFound
  | _ => false

def isTransient : AnalysisError → Bool
  | .unreadable _ fault => fault.isTransient
  | _ => false

end AnalysisError

structure Analyzer where
  supports : Path → Bool
  analyze : Timestamp → Path → Workspace → Except AnalysisError Finding × Workspace
  aggregate : Path → List Analysis → Json

namespace Analyzer

/-- The aggregate of an analyzer that has none of its own. -/
def countFiles (root : Path) (analyses : List Analysis) : Json :=
  Json.record [("root", toJson root.key), ("files", toJson analyses.length)]

def readStats (files : Files) (path : Path) : Except AnalysisError Finding :=
  if Source.isSource path then
    match files.readText path with
    | .error fault => .error (.unreadable path fault)
    | .ok text => .ok (.ofStats path text)
  else .error (.unsupported path)

def stats : Analyzer where
  supports := Source.isSource
  analyze _ path workspace := (readStats workspace.files path, workspace)
  aggregate root analyses :=
    (Source.Totals.ofResults (analyses.map (·.result))).aggregate root

/-- What is declared about files, by path key. -/
structure Declarations where
  extensions : List String
  dependencies : List (String × List String) := []
  /-- Files whose analysis fails, and with which words. -/
  failures : List (String × String) := []
  /-- Files that change while they are analyzed, and their new text. -/
  overwrites : List (String × String) := []

namespace Declarations

/-- The content of a file, with the dependencies declared for it. -/
def finding (declared : Declarations) (files : Files) (path : Path) :
    Except AnalysisError Finding :=
  match files.readText path with
  | .error fault => .error (.unreadable path fault)
  | .ok text => .ok
      { result := Json.record
          [("path", toJson path.key), ("bytes", toJson text.utf8ByteSize), ("content", toJson text)]
        dependencies := (declared.dependencies.lookup path.key).getD [] }

/-- The finding, unless a failure is declared; a declared change happens after the reading.
Every analysis is counted. -/
def analyze (declared : Declarations) (now : Timestamp) (path : Path) (workspace : Workspace) :
    Except AnalysisError Finding × Workspace :=
  let key := path.key
  let counted :=
    { workspace with analyzed := workspace.analyzed.insert key (workspace.analyzed.getD key 0 + 1) }
  match declared.failures.lookup key, declared.overwrites.lookup key with
  | some words, _ => (.error (.failed path words), counted)
  | none, some text =>
    (declared.finding counted.files path,
      { counted with files := counted.files.write path text.toUTF8 now })
  | none, none => (declared.finding counted.files path, counted)

end Declarations

def declared (declarations : Declarations) : Analyzer where
  supports path := path.extension?.any declarations.extensions.contains
  analyze := declarations.analyze
  aggregate := countFiles

end Analyzer
end FreshDocs
