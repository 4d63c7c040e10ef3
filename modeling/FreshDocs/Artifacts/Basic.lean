import FreshDocs.Artifacts.Dependencies
import FreshDocs.Files.Stamp
import FreshDocs.Store.Basic
/-!
What is made from files: the analysis of a source file, and a template in compiled form.
-/

namespace FreshDocs

/-- The result of analyzing one file, with the stamp of the file it was made from. -/
structure Analysis where
  path : Path
  result : Json
  stamp : FileStamp
  /-- Files and templates that the result relies on, in their own spelling. -/
  dependencies : List String

namespace Analysis

def ofStamp (stamp : FileStamp) (result : Json) (dependencies : List String) : Analysis :=
  { path := stamp.path, result, stamp, dependencies }

/-- Attaches a result to the file as it is now; there is none for a file that does not exist. -/
def capture (files : Files) (path : Path) (result : Json) (dependencies : List String) :
    Except StoreError (Option Analysis) :=
  (FileStamp.read files path).map (Option.map (ofStamp · result dependencies))

instance : ToJson Analysis where
  toJson analysis := .object
    [("path", toJson analysis.path), ("analysis", analysis.result),
     ("metadata", toJson analysis.stamp), ("dependencies", toJson analysis.dependencies)]

end Analysis

/-- A template as the renderer uses it, with the digest of its source. -/
structure Template where
  path : Path
  sourceDigest : Digest
  compiled : String
  deriving DecidableEq

namespace Template

instance : ToJson Template where
  toJson template := .object
    [("path", toJson template.path), ("source_hash", toJson template.sourceDigest),
     ("compiled", toJson template.compiled)]

end Template

/-- Why an analysis is dropped. -/
inductive DropReason where
  | contentChanged
  | deleted
  | dependencyChanged (path : String)
  | manual
  | fullRegeneration
  deriving DecidableEq

namespace DropReason

def message : DropReason → String
  | .contentChanged => "content changed"
  | .deleted => "deleted"
  | .dependencyChanged path => s!"dependency {path} changed"
  | .manual => "manual"
  | .fullRegeneration => "full regeneration"

def plain : List (String × DropReason) :=
  [("ContentChanged", .contentChanged), ("Deleted", .deleted), ("Manual", .manual),
   ("FullRegeneration", .fullRegeneration)]

def read? : Json → Option DropReason
  | .object [("DependencyChanged", .string path)] => some (.dependencyChanged path)
  | value => Json.choice? plain value

instance : ToJson DropReason where
  toJson
    | .contentChanged => .string "ContentChanged"
    | .deleted => .string "Deleted"
    | .dependencyChanged path => .object [("DependencyChanged", .string path)]
    | .manual => .string "Manual"
    | .fullRegeneration => .string "FullRegeneration"

end DropReason
end FreshDocs
