import FreshDocs.Artifacts.Cache
import FreshDocs.Artifacts.Snapshots
import FreshDocs.Sections.Basic
/-!
What batches act on: the files, what is stored about them, and the registered sections.
-/

namespace FreshDocs

structure Workspace where
  files : Files
  artifacts : Artifacts
  snapshots : Snapshots
  sections : Sections := ∅
  /-- How often each file was given to the analyzer, by path key. -/
  analyzed : Std.ExtTreeMap String Nat := ∅

namespace Workspace

def ofFiles (files : Files) (limits : Artifacts.Limits) (snapshots : Store.Limits) : Workspace :=
  { files, artifacts := Artifacts.empty limits, snapshots := Snapshots.empty snapshots }

/-- How often any file was given to the analyzer. -/
def analyzedTotal (workspace : Workspace) : Nat :=
  workspace.analyzed.values.foldl (· + ·) 0

end Workspace
end FreshDocs
