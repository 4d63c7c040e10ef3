import FreshDocs.Sync.Revision
import FreshDocs.Json.Printer
/-!
Messages to clients: a kind, data of its own, and when it was made.
-/

namespace FreshDocs.Sync

inductive Message.Kind where
  | update
  | status
  | conflict
  | heartbeat
  | queue
  deriving DecidableEq

namespace Message.Kind

def name : Kind → String
  | .update => "update"
  | .status => "status"
  | .conflict => "conflict"
  | .heartbeat => "heartbeat"
  | .queue => "queue"

def all : List Kind := [.update, .status, .conflict, .heartbeat, .queue]

def read? (value : Json) : Option Kind :=
  Json.choice? (all.map fun kind => (kind.name, kind)) value

instance : ToJson Kind := ⟨fun kind => .string kind.name⟩

end Message.Kind

structure Message where
  kind : Message.Kind
  /-- The payload, in canonical form. -/
  data : Json
  timestamp : Timestamp

namespace Message

def make (now : Timestamp) (kind : Kind) (data : Json) : Message :=
  { kind, data := data.canonical, timestamp := now }

def ofRevision (now : Timestamp) (revision : Revision) : Message :=
  make now .update (toJson revision)

/-- The sign of life, with the number of clients. -/
def heartbeat (now : Timestamp) (clients : Nat) : Message :=
  make now .heartbeat (.object [("clients", toJson clients)])

instance : ToJson Message where
  toJson message := .object
    [("type", toJson message.kind), ("data", message.data),
     ("timestamp", toJson message.timestamp)]

def toText (message : Message) : String :=
  (toJson message).compact

def read? (value : Json) : Option Message := do
  let fields ← Json.Fields.read? ["type", "data", "timestamp"] false value
  let kind ← fields.get? "type" Kind.read?
  let data ← fields.get? "data" some
  let timestamp ← fields.get? "timestamp" Timestamp.ofJson?
  return { kind, data := data.canonical, timestamp }

def parse? (text : String) : Option Message :=
  (Json.parse? text).bind read?

end Message
end FreshDocs.Sync
