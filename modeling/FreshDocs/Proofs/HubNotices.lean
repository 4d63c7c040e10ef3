import FreshDocs.Proofs.HubClients
import Mathlib.Data.List.Forall2

/-! What leaves a hub. Messages go to clients, and whoever stays connected has all of them;
events go to the feed, where those about clients come in between. -/

namespace FreshDocs.Sync

/-- A client has a beginning of what was sent, and all of it while it is connected. -/
def Client.Holds (sent : List Message) (client : Client) : Prop :=
  ∃ missed, client.received.toList ++ missed = sent ∧ (client.connected = true → missed = [])

namespace Client.Holds

variable {sent : List Message} {client : Client}

/-- A message that does not arrive, or is not even tried, is one more that is missed. -/
theorem miss (holds : client.Holds sent) (message : Message) (attempts : Nat) :
    Client.Holds (sent ++ [message]) { client with connected := false, attempts } := by
  obtain ⟨missed, rfl, -⟩ := holds
  exact ⟨missed ++ [message], (List.append_assoc _ _ _).symm, fun connected => Bool.noConfusion connected⟩

private theorem arrive (holds : client.Holds sent) (connected : client.connected = true) (message : Message) (attempts : Nat) :
    Client.Holds (sent ++ [message]) { client with attempts, received := client.received.push message } := by
  obtain ⟨missed, rfl, none_missed⟩ := holds
  refine ⟨[], ?_, fun _ => rfl⟩
  rw [none_missed connected]
  simp

theorem take (holds : client.Holds sent) (message : Message) : Client.Holds (sent ++ [message]) (client.take message) := by
  rcases client.take_cases message with ⟨off, -, same⟩ | ⟨on, -, same⟩ | ⟨-, -, same⟩
  all_goals rw [same]
  · have missed := holds.miss message client.attempts
    rwa [← off] at missed
  · exact holds.arrive on message _
  · exact holds.miss message _

end Client.Holds

def Event.isNotice : Event → Bool
  | .clientRegistered _ | .clientDisconnected _ _ => false
  | .queued _ _ | .dropped _ | .conflictDetected _ | .conflictUpdated _ _ | .conflictResolved _ _ | .broadcast _ _ _ => true

def Event.dropped? : Event → Option Revision
  | .dropped revision => some revision
  | _ => none

def Event.broadcast? : Event → Option (Uuid × String)
  | .broadcast id path _ => some (id, path)
  | _ => none

namespace Hub

def notices (hub : Hub) : List Event :=
  hub.events.toList.filter (·.isNotice)

/-- The messages and notices that leave a hub between two states. -/
structure Publishes (before after : Hub) (messages : List Message) (notices : List Event) : Prop where
  reach : ∀ sent, (∀ client ∈ before.clients, client.Holds sent) →
    ∀ client ∈ after.clients, client.Holds (sent ++ messages)
  notices : after.notices = before.notices ++ notices

namespace Publishes

variable {first second third : Hub} {messages others : List Message} {notices further : List Event}

/-- What leaves a hub depends on its clients and its events alone. -/
theorem congr (publishes : Publishes second third messages notices) (clients : second.clients = first.clients)
    (events : second.events = first.events) : Publishes first third messages notices := by
  constructor
  · rw [← clients]
    exact publishes.reach
  · rw [publishes.notices, Hub.notices, events]
    rfl

theorem refl (hub : Hub) : Publishes hub hub [] [] := by
  constructor
  · intro sent held
    rwa [List.append_nil]
  · rw [List.append_nil]

theorem trans (one : Publishes first second messages notices) (two : Publishes second third others further) :
    Publishes first third (messages ++ others) (notices ++ further) := by
  constructor
  · intro sent held client member
    have next := two.reach (sent ++ messages) (one.reach sent held) client member
    rwa [List.append_assoc] at next
  · rw [two.notices, one.notices, List.append_assoc]

theorem emit (hub : Hub) (event : Event) (notice : event.isNotice = true) : Publishes hub (hub.emit event) [] [event] := by
  constructor
  · intro sent held client member
    rw [List.append_nil]
    exact held client member
  · simp [Hub.notices, Hub.emit, notice]

end Publishes

/-! ### Broadcasts -/

private theorem notices_disconnects (failed : List (Nat × TransportError)) (hub : Hub) :
    (failed.foldl (fun hub (client, error) => hub.disconnect client error.message) hub).notices = hub.notices := by
  induction failed generalizing hub with
  | nil => rfl
  | cons failure rest ih =>
    rw [List.foldl_cons, ih]
    simp [notices, disconnect, emit, Event.isNotice]

theorem Publishes.broadcast (hub : Hub) (message : Message) :
    Publishes hub (hub.broadcast message).2 [message] [] := by
  constructor
  · intro earlier held client member
    rw [clients_broadcast] at member
    obtain ⟨before, there, rfl⟩ := Array.mem_map.mp member
    exact (held before there).take message
  · rcases sent : deliver message 0 hub.clients.toList with ⟨delivered, failed, clients⟩
    simp only [Hub.broadcast, sent, List.append_nil]
    exact notices_disconnects failed { hub with clients := clients.toArray }

/-! ### Requests -/

def dropMessage (hub : Hub) (now : Timestamp) (dropped : Revision) : Message :=
  .make now .queue <| .object
    [("event", .string "overflow"), ("dropped", toJson dropped.id), ("path", toJson dropped.path),
     ("depth", toJson hub.queue.length), ("capacity", toJson hub.settings.capacity)]

theorem dropped_dropMessage (hub : Hub) (now : Timestamp) (dropped : Revision) :
    (hub.dropMessage now dropped).data.member? "dropped" = some (toJson dropped.id) :=
  rfl

section
variable {hub : Hub} {now : Timestamp} {revision : Revision}

private theorem publishes_reportDrop (hub : Hub) (now : Timestamp) (dropped : Revision) :
    Publishes hub (hub.reportDrop now dropped) [hub.dropMessage now dropped] [.dropped dropped] :=
  (Publishes.broadcast hub _).trans (.emit _ _ rfl)

private theorem publishes_enqueue {dropped : Option Revision} {queued : Hub}
    (entered : hub.enqueue revision = (dropped, queued)) : Publishes hub queued [] [] := by
  rcases enqueue_cases hub revision with ⟨-, shape⟩ | ⟨oldest, rest, -, -, shape⟩
  all_goals
    cases shape.symm.trans entered
    exact (Publishes.refl _).congr rfl rfl

theorem publishes_absorbed {id : Uuid} (held : hub.conflictOf[revision.path]? = some id) :
    Publishes hub (hub.submit now revision).2 [] [.conflictUpdated id revision.id] := by
  simp only [submit, held]
  exact (Publishes.emit _ _ rfl).congr rfl rfl

theorem publishes_raised {conflict : Conflict} (free : hub.conflictOf[revision.path]? = none)
    (found : hub.raised? now revision = some conflict) :
    Publishes hub (hub.submit now revision).2 [.make now .conflict (toJson conflict)] [.conflictDetected conflict] := by
  simp only [raised?] at found
  simp only [submit, free, found]
  exact ((Publishes.broadcast _ _).trans (.emit _ _ rfl)).congr rfl rfl

/-- Every revision that overflows is reported, to clients and to the feed. -/
theorem publishes_queued {dropped : Option Revision} {queued : Hub} (free : hub.conflictOf[revision.path]? = none)
    (clear : hub.raised? now revision = none) (entered : (hub.pruneRecent now).enqueue revision = (dropped, queued)) :
    ∃ told : Hub, Publishes hub (hub.submit now revision).2 (dropped.toList.map (told.dropMessage now))
      (.queued revision.id revision.path :: dropped.toList.map .dropped) := by
  have quiet : Publishes hub queued [] [] := (publishes_enqueue entered).congr rfl rfl
  have told := quiet.trans (.emit queued (.queued revision.id revision.path) rfl)
  simp only [raised?] at clear
  simp only [submit, free, clear, entered]
  refine ⟨queued.emit (.queued revision.id revision.path), ?_⟩
  cases dropped with
  | none => exact told
  | some oldest => exact told.trans (publishes_reportDrop _ now oldest)

theorem publishes_settled {id : Uuid} {conflict : Conflict} {dropped : Option Revision} {queued : Hub}
    (resolution : Resolution) (known : hub.conflicts[id]? = some conflict)
    (entered : (hub.settle id conflict.path).enqueue (conflict.settle hub.ids.draw.1 now resolution) = (dropped, queued)) :
    ∃ told : Hub, Publishes hub (hub.resolve now id resolution).2 (dropped.toList.map (told.dropMessage now))
      (dropped.toList.map .dropped ++ [.conflictResolved { conflict with status := .resolved resolution }
        (conflict.settle hub.ids.draw.1 now resolution)]) := by
  have quiet : Publishes hub queued [] [] := (publishes_enqueue entered).congr rfl rfl
  simp only [settle] at entered
  simp only [resolve, known, entered]
  refine ⟨queued, ?_⟩
  cases dropped with
  | none => exact quiet.trans (.emit _ _ rfl)
  | some oldest => exact (quiet.trans (publishes_reportDrop _ now oldest)).trans (.emit _ _ rfl)

private theorem publishes_passOn (now : Timestamp) (batch : List Revision) (hub : Hub) :
    ∃ notices, Publishes hub (passOn now batch hub).2 (batch.map (.ofRevision now)) notices ∧
      List.Forall₂ (fun revision notice => ∃ delivered, notice = .broadcast revision.id revision.path delivered) batch notices := by
  induction batch generalizing hub with
  | nil => exact ⟨[], .refl hub, .nil⟩
  | cons revision rest ih =>
    have sent := (Publishes.broadcast hub (.ofRevision now revision)).trans
      (.emit _ (.broadcast revision.id revision.path (hub.broadcast (.ofRevision now revision)).1) rfl)
    obtain ⟨notices, others, each⟩ := ih ((hub.broadcast (.ofRevision now revision)).2.emit
      (.broadcast revision.id revision.path (hub.broadcast (.ofRevision now revision)).1))
    exact ⟨_, sent.trans others, .cons ⟨_, rfl⟩ each⟩

theorem publishes_flush (hub : Hub) (now : Timestamp) :
    ∃ notices, Publishes hub (hub.flush now).2 ((compact hub.queue).map (.ofRevision now)) notices ∧
      List.Forall₂ (fun revision notice => ∃ delivered, notice = .broadcast revision.id revision.path delivered)
        (compact hub.queue) notices := by
  cases shape : hub.queue with
  | nil =>
    rw [flush_of_empty now shape]
    exact ⟨[], .refl hub, .nil⟩
  | cons first rest =>
    simp only [flush, shape, List.isEmpty_cons, Bool.false_eq_true, if_false]
    obtain ⟨notices, sent, each⟩ := publishes_passOn now (compact (first :: rest)) _
    exact ⟨notices, sent.congr rfl rfl, each⟩

end

end Hub
end FreshDocs.Sync
