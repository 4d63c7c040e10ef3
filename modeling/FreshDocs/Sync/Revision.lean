import FreshDocs.Files.Stamp
import FreshDocs.Json.Fields
import FreshDocs.Json.Reader
import FreshDocs.Uuid
/-!
New content for published documents. A revision is either generated or edited by hand, and
carries the digest of its content.
-/

namespace FreshDocs.Sync

/-- What a revision covers. -/
inductive Scope where
  | file
  | project
  deriving DecidableEq

/-- Who made a revision. -/
inductive Origin where
  | auto
  | manual
  deriving DecidableEq

namespace Scope

def name : Scope → String
  | .file => "file"
  | .project => "project"

def read? (value : Json) : Option Scope :=
  Json.choice? [("file", .file), ("project", .project)] value

instance : ToJson Scope := ⟨fun scope => .string scope.name⟩

end Scope

namespace Origin

/-- The competing origin. -/
def other : Origin → Origin
  | .auto => .manual
  | .manual => .auto

theorem ne_other (origin : Origin) : origin ≠ origin.other := by
  cases origin <;> decide

theorem other_other (origin : Origin) : origin.other.other = origin := by
  cases origin <;> rfl

theorem eq_or_other (first second : Origin) : first = second ∨ first = second.other := by
  cases first <;> cases second <;> simp [other]

def name : Origin → String
  | .auto => "auto"
  | .manual => "manual"

def read? (value : Json) : Option Origin :=
  Json.choice? [("auto", .auto), ("manual", .manual)] value

instance : ToJson Origin := ⟨fun origin => .string origin.name⟩

end Origin

/-- New content for one document. -/
structure Revision where
  id : Uuid
  scope : Scope
  path : String
  content : String
  timestamp : Timestamp
  origin : Origin
  checksum : Digest
  deriving DecidableEq

namespace Revision

def make (id : Uuid) (now : Timestamp) (scope : Scope) (path content : String)
    (origin : Origin) : Revision :=
  { id, scope, path, content, timestamp := now, origin, checksum := Digest.ofText content }

/-- Whether the checksum is that of the content. -/
def verify (revision : Revision) : Bool :=
  Digest.ofText revision.content = revision.checksum

instance : ToJson Revision where
  toJson revision := .object
    [("id", toJson revision.id), ("scope", toJson revision.scope), ("path", toJson revision.path),
     ("content", toJson revision.content), ("timestamp", toJson revision.timestamp),
     ("source", toJson revision.origin), ("checksum", toJson revision.checksum)]

def fieldNames : List String :=
  ["id", "scope", "path", "content", "timestamp", "source", "checksum"]

def read? (value : Json) : Option Revision := do
  let fields ← Json.Fields.read? fieldNames false value
  let id ← fields.get? "id" Uuid.ofJson?
  let scope ← fields.get? "scope" Scope.read?
  let path ← fields.get? "path" Json.string?
  let content ← fields.get? "content" Json.string?
  let timestamp ← fields.get? "timestamp" Timestamp.ofJson?
  let origin ← fields.get? "source" Origin.read?
  let checksum ← fields.get? "checksum" Digest.ofJson?
  return { id, scope, path, content, timestamp, origin, checksum }

def parse? (text : String) : Option Revision :=
  (Json.parse? text).bind read?

end Revision
end FreshDocs.Sync
