import FreshDocs.Sync.Revision
/-!
Conflicts: generated and edited content that compete for one document. A conflict holds the
latest content of either side until it is settled by a single revision.
-/

namespace FreshDocs.Sync

/-- How a conflict is settled. -/
inductive Resolution where
  /-- Keep the generated content. -/
  | auto
  /-- Keep the edited content. -/
  | manual
  /-- Publish content made from both. -/
  | merge (content : String)
  deriving DecidableEq

namespace Resolution

instance : ToJson Resolution where
  toJson
    | .auto => .object [("strategy", .string "auto")]
    | .manual => .object [("strategy", .string "manual")]
    | .merge content => .object [("strategy", .string "merge"), ("content", .string content)]

inductive Kind where
  | auto
  | manual
  | merge

/-- A resolution of a kind; only a merge has content. -/
def ofParts? (kind : Kind) (content : Option Json) : Option Resolution :=
  match kind, content with
  | .auto, none | .auto, some .null => some .auto
  | .manual, none | .manual, some .null => some .manual
  | .merge, some (.string content) => some (.merge content)
  | _, _ => none

def kind? (value : Json) : Option Kind :=
  Json.choice? [("auto", .auto), ("manual", .manual), ("merge", .merge)] value

def read? (value : Json) : Option Resolution :=
  match value with
  | .array items =>
    match items with
    | [kind, content] => (kind? kind).bind (ofParts? · (some content))
    | _ => none
  | value => do
    let fields ← Json.Fields.read? ["strategy", "content"] false value
    ofParts? (← fields.get? "strategy" kind?) (fields.find? "content")

def parse? (text : String) : Option Resolution :=
  (Json.parse? text).bind read?

end Resolution

/-- One side of a conflict. -/
structure Conflict.Side where
  revision : Uuid
  content : String
  timestamp : Timestamp
  deriving DecidableEq

namespace Conflict.Side

def ofRevision (revision : Revision) : Side :=
  { revision := revision.id, content := revision.content, timestamp := revision.timestamp }

instance : ToJson Side where
  toJson side := .object
    [("update_id", toJson side.revision), ("content", toJson side.content),
     ("timestamp", toJson side.timestamp)]

end Conflict.Side

inductive Conflict.Status where
  | pending
  | resolved (resolution : Resolution)
  deriving DecidableEq

instance : ToJson Conflict.Status where
  toJson
    | .pending => .object [("state", .string "pending")]
    | .resolved resolution =>
      .object [("state", .string "resolved"), ("resolution", toJson resolution)]

structure Conflict where
  id : Uuid
  path : String
  scope : Scope
  auto : Conflict.Side
  manual : Conflict.Side
  detectedAt : Timestamp
  status : Conflict.Status := .pending
  deriving DecidableEq

namespace Conflict

/-- The conflict of two revisions, the first of them giving path and scope; there is none
between revisions of one origin. -/
def between? (id : Uuid) (now : Timestamp) (first second : Revision) : Option Conflict :=
  let make (auto manual : Revision) : Conflict :=
    { id, path := first.path, scope := first.scope, auto := .ofRevision auto
      manual := .ofRevision manual, detectedAt := now }
  match first.origin, second.origin with
  | .auto, .manual => some (make first second)
  | .manual, .auto => some (make second first)
  | _, _ => none

/-- The conflict with a newer revision on the side of its origin. -/
def absorb (conflict : Conflict) (revision : Revision) : Conflict :=
  match revision.origin with
  | .auto => { conflict with auto := .ofRevision revision }
  | .manual => { conflict with manual := .ofRevision revision }

/-- The single revision that settles the conflict. -/
def settle (conflict : Conflict) (id : Uuid) (now : Timestamp) (resolution : Resolution) :
    Revision :=
  let make := Revision.make id now conflict.scope conflict.path
  match resolution with
  | .auto => make conflict.auto.content .auto
  | .manual => make conflict.manual.content .manual
  | .merge content => make content .manual

instance : ToJson Conflict where
  toJson conflict := .object
    [("id", toJson conflict.id), ("path", toJson conflict.path), ("scope", toJson conflict.scope),
     ("auto", toJson conflict.auto), ("manual", toJson conflict.manual),
     ("detected_at", toJson conflict.detectedAt), ("status", toJson conflict.status)]

end Conflict
end FreshDocs.Sync
