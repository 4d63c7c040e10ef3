import FreshDocs.Sync.Hub
import FreshDocs.Time.Clockwork
/-!
The regular work of a hub: flushes and heartbeats, each at its own interval, the first of
either after one interval.
-/

namespace FreshDocs.Sync

structure Pulse where
  nextFlush : Timestamp
  nextHeartbeat : Timestamp

namespace Pulse

/-- An interval in milliseconds; there is none shorter than one. -/
def interval (millis : Nat) : Nat :=
  max millis 1

def start (settings : Settings) (now : Timestamp) : Pulse :=
  { nextFlush := now.addMillis (interval settings.flushInterval)
    nextHeartbeat := now.addMillis (interval settings.heartbeatInterval) }

def nextDue (pulse : Pulse) : Timestamp :=
  Timestamp.earlier pulse.nextFlush pulse.nextHeartbeat

def flushIfDue (now : Timestamp) (pulse : Pulse) (hub : Hub) : Pulse × Hub :=
  if pulse.nextFlush ≤ now then
    ({ pulse with nextFlush := now.addMillis (interval hub.settings.flushInterval) },
      (hub.flush now).2)
  else (pulse, hub)

def beatIfDue (now : Timestamp) (pulse : Pulse) (hub : Hub) : Pulse × Hub :=
  if pulse.nextHeartbeat ≤ now then
    ({ pulse with nextHeartbeat := now.addMillis (interval hub.settings.heartbeatInterval) },
      (hub.heartbeat now).2)
  else (pulse, hub)

def fire (now : Timestamp) (pulse : Pulse) (hub : Hub) : Pulse × Hub :=
  let (pulse, hub) := flushIfDue now pulse hub
  beatIfDue now pulse hub

/-- The last flush of a pulse that is stopped in good order. -/
def stop (now : Timestamp) (hub : Hub) : Hub :=
  (hub.flush now).2

/-- A hub with or without a pulse. -/
def clockwork : Clockwork (Option Pulse × Hub) where
  nextDue state := state.1.map nextDue
  settle now state :=
    match state.1 with
    | none => state
    | some pulse =>
      let (pulse, hub) := fire now pulse state.2
      (some pulse, hub)

end Pulse
end FreshDocs.Sync
