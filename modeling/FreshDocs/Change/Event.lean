import FreshDocs.Files.Stamp
import FreshDocs.Json.Fields
import FreshDocs.Json.Reader
/-!
Changes of files as a watcher reports them. As structured data the kind of a change shares one
object with path and time; only a renaming has a member of its own.
-/

namespace FreshDocs

inductive Change.Kind where
  | modified
  | added
  | deleted
  | renamed (source : Path)
  deriving DecidableEq

structure Change where
  /-- The file; for a renaming, where it is now. -/
  path : Path
  kind : Change.Kind
  timestamp : Timestamp
  deriving DecidableEq

namespace Change

def key (change : Change) : String :=
  change.path.key

/-- Where a renamed file was before. -/
def source? (change : Change) : Option Path :=
  match change.kind with
  | .renamed source => some source
  | _ => none

def Kind.members : Kind → List (String × Json)
  | .modified => [("type", .string "modified")]
  | .added => [("type", .string "added")]
  | .deleted => [("type", .string "deleted")]
  | .renamed source => [("type", .string "renamed"), ("from", toJson source)]

instance : ToJson Change where
  toJson change := .object
    (("path", toJson change.path) :: change.kind.members ++
      [("timestamp", toJson change.timestamp)])

/-- The value of a member that stands exactly once. -/
def single? (name : String) (members : List (String × Json)) : Option Json :=
  match members.filter (·.1 = name) with
  | [(_, value)] => some value
  | _ => none

/-- The kind called by a name or, in data, by its number. -/
def Kind.read? (members : List (String × Json)) : Json → Option Kind
  | .string "modified" | .integer 0 => some .modified
  | .string "added" | .integer 1 => some .added
  | .string "deleted" | .integer 2 => some .deleted
  | .string "renamed" | .integer 3 => do
    let source ← single? "from" members
    return .renamed ⟨← source.string?⟩
  | _ => none

/-- Reads a change from an object. Members may come in any order, and others are passed over. -/
def read? : Json → Option Change
  | .object members => do
    let path ← (← single? "path" members).string?
    let kind ← Kind.read? members (← single? "type" members)
    let timestamp ← Timestamp.ofJson? (← single? "timestamp" members)
    return { path := ⟨path⟩, kind, timestamp }
  | _ => none

def parse? (text : String) : Option Change :=
  (Json.parse? text).bind read?

def resolve (root : Path) (change : Change) : Change :=
  { change with
    path := root.resolve change.path
    kind :=
      match change.kind with
      | .renamed source => .renamed (root.resolve source)
      | other => other }

end Change
end FreshDocs
