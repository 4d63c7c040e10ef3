import FreshDocs.Sync.Message
/-!
Clients and the transports that lead to them. A transport may fail at any message; a client
keeps what has reached it.
-/

namespace FreshDocs.Sync

/-- Why a message did not reach a client. -/
inductive TransportError where
  | closed
  | failed (words : String)
  deriving DecidableEq

def TransportError.message : TransportError → String
  | .closed => "transport closed"
  | .failed words => s!"transport failed: {words}"

/-- How a transport takes each message: by the number of messages it was given before. -/
structure Transport where
  outcome : Nat → Message → Option TransportError

namespace Transport

/-- Takes everything. -/
def reliable : Transport := ⟨fun _ _ => none⟩

def closed : Transport := ⟨fun _ _ => some .closed⟩

/-- Takes `accepts` messages and no more. -/
def failingAfter (accepts : Nat) (words : String) : Transport :=
  ⟨fun attempt _ => if attempt < accepts then none else some (.failed words)⟩

end Transport

structure Client where
  transport : Transport
  /-- Whether the client is still registered. -/
  connected : Bool := true
  /-- How many messages its transport was given. -/
  attempts : Nat := 0
  /-- The messages that reached it, oldest first. -/
  received : Array Message := #[]

namespace Client

def send (message : Message) (client : Client) : Option TransportError × Client :=
  let tried := { client with attempts := client.attempts + 1 }
  match client.transport.outcome client.attempts message with
  | none => (none, { tried with received := client.received.push message })
  | some error => (some error, tried)

end Client
end FreshDocs.Sync
