import FreshDocs.Proofs.HubSteps

/-! What a message does to the clients of a hub. It comes to each of them on its own, so a client is
left as it would be if there were no others. -/

namespace FreshDocs.Sync

namespace Client

def takes (client : Client) (message : Message) : Bool :=
  client.connected && (client.transport.outcome client.attempts message).isNone

def failure? (client : Client) (message : Message) : Option TransportError :=
  if client.connected then client.transport.outcome client.attempts message else none

/-- A client after a message. One that the message does not reach is off from then on. -/
def take (client : Client) (message : Message) : Client :=
  if client.connected then
    { (client.send message).2 with connected := (client.send message).1.isNone }
  else client

section
variable {client : Client} {message : Message}

private theorem send_of_none (clear : client.transport.outcome client.attempts message = none) :
    client.send message =
      (none, { client with attempts := client.attempts + 1, received := client.received.push message }) := by
  simp only [send, clear]

private theorem send_of_some {error : TransportError} (fails : client.transport.outcome client.attempts message = some error) :
    client.send message = (some error, { client with attempts := client.attempts + 1 }) := by
  simp only [send, fails]

theorem take_cases (client : Client) (message : Message) :
    (client.connected = false ∧ client.takes message = false ∧ client.take message = client) ∨
    (client.connected = true ∧ client.takes message = true ∧ client.take message =
      { client with attempts := client.attempts + 1, received := client.received.push message }) ∨
    (client.connected = true ∧ client.takes message = false ∧ client.take message =
      { client with attempts := client.attempts + 1, connected := false }) := by
  cases on : client.connected with
  | false => exact .inl ⟨rfl, by simp [takes, on], by simp [take, on]⟩
  | true =>
    cases outcome : client.transport.outcome client.attempts message with
    | none =>
      refine .inr (.inl ⟨rfl, by simp [takes, on, outcome], ?_⟩)
      simp only [take, on, if_true, send_of_none outcome, Option.isNone_none]
    | some error =>
      refine .inr (.inr ⟨rfl, by simp [takes, on, outcome], ?_⟩)
      simp only [take, on, if_true, send_of_some outcome, Option.isNone_some]

theorem connected_take (client : Client) (message : Message) : (client.take message).connected = client.takes message := by
  rcases client.take_cases message with ⟨off, lost, same⟩ | ⟨on, reached, same⟩ | ⟨on, lost, same⟩
  all_goals rw [same]
  · exact off.trans lost.symm
  · exact on.trans reached.symm
  · exact lost.symm

private theorem isSome_failure? (client : Client) (message : Message) :
    (client.failure? message).isSome = (client.connected && !client.takes message) := by
  cases on : client.connected with
  | false => simp [failure?, on]
  | true => cases outcome : client.transport.outcome client.attempts message <;> simp [failure?, takes, on, outcome]

end
end Client

namespace Hub

/-! ### One message -/

theorem deliver_cons (message : Message) (number : Nat) (first : Client) (rest : List Client) :
    deliver message number (first :: rest) =
      ((deliver message (number + 1) rest).1 + (if first.takes message then 1 else 0),
        ((first.failure? message).map (number, ·)).toList ++ (deliver message (number + 1) rest).2.1,
        (if first.connected then (first.send message).2 else first) :: (deliver message (number + 1) rest).2.2) := by
  rcases others : deliver message (number + 1) rest with ⟨delivered, failed, clients⟩
  simp only [deliver, others]
  cases on : first.connected with
  | false => simp [Client.takes, Client.failure?, on]
  | true =>
    cases outcome : first.transport.outcome first.attempts message with
    | none => simp [Client.send_of_none outcome, Client.takes, Client.failure?, on, outcome]
    | some error => simp [Client.send_of_some outcome, Client.takes, Client.failure?, on, outcome]

private theorem deliver_count (message : Message) (clients : List Client) (number : Nat) :
    (deliver message number clients).1 = clients.countP (·.takes message) := by
  induction clients generalizing number with
  | nil => rfl
  | cons first rest ih => rw [deliver_cons, List.countP_cons, ih]

private theorem deliver_clients (message : Message) (clients : List Client) (number : Nat) :
    (deliver message number clients).2.2 =
      clients.map fun client => if client.connected then (client.send message).2 else client := by
  induction clients generalizing number with
  | nil => rfl
  | cons first rest ih => rw [deliver_cons, List.map_cons, ih]

private theorem deliver_failed (message : Message) (clients : List Client) (number : Nat) :
    (deliver message number clients).2.1 =
      (clients.zipIdx number).filterMap fun entry => (entry.1.failure? message).map (entry.2, ·) := by
  induction clients generalizing number with
  | nil => rfl
  | cons first rest ih =>
    rw [deliver_cons, ih, List.zipIdx_cons, List.filterMap_cons]
    cases first.failure? message <;> rfl

private theorem mem_failed {message : Message} {clients : List Client} {place : Nat} :
    place ∈ (deliver message 0 clients).2.1.map (·.1) ↔
      ∃ client, clients[place]? = some client ∧ client.connected = true ∧ client.takes message = false := by
  have failing (client : Client) : (∃ error, client.failure? message = some error) ↔
      client.connected = true ∧ client.takes message = false := by
    rw [← Option.isSome_iff_exists, Client.isSome_failure?, Bool.and_eq_true, Bool.not_eq_true']
  rw [deliver_failed]
  simp only [List.mem_map, List.mem_filterMap, Prod.exists, List.mk_mem_zipIdx_iff_getElem?, Option.map_eq_some_iff,
    Prod.mk.injEq]
  constructor
  · intro listed
    obtain ⟨number, error, ⟨client, _, there, found, fails, rfl, rfl⟩, rfl⟩ := listed
    exact ⟨client, there, (failing client).mp ⟨_, fails⟩⟩
  · intro listed
    obtain ⟨client, there, lost⟩ := listed
    obtain ⟨error, fails⟩ := (failing client).mpr lost
    exact ⟨place, error, ⟨client, place, there, error, fails, rfl, rfl⟩, rfl⟩

/-- Every client that was on is reached or listed. -/
theorem deliver_accounts (message : Message) (clients : List Client) (number : Nat) :
    clients.countP (·.takes message) + (deliver message number clients).2.1.length = clients.countP (·.connected) := by
  induction clients generalizing number with
  | nil => rfl
  | cons first rest ih =>
    have others := ih (number + 1)
    have fails := first.isSome_failure? message
    rw [deliver_cons, List.countP_cons, List.countP_cons, List.length_append]
    rcases first.take_cases message with ⟨on, reached, -⟩ | ⟨on, reached, -⟩ | ⟨on, reached, -⟩
    · have silent : first.failure? message = none := by simpa [on, reached] using fails
      simp [on, reached, silent]
      omega
    · have silent : first.failure? message = none := by simpa [on, reached] using fails
      simp [on, reached, silent]
      omega
    · obtain ⟨error, failed⟩ := Option.isSome_iff_exists.mp (by simpa [on, reached] using fails)
      simp [on, reached, failed]
      omega

private theorem clients_disconnects (failed : List (Nat × TransportError)) (hub : Hub) (place : Nat) :
    (failed.foldl (fun hub (client, error) => hub.disconnect client error.message) hub).clients[place]? =
      hub.clients[place]?.map fun client =>
        if place ∈ failed.map (·.1) then { client with connected := false } else client := by
  induction failed generalizing hub with
  | nil => simp
  | cons failure rest ih =>
    rw [List.foldl_cons, ih]
    simp only [disconnect, emit, Array.getElem?_modify, List.map_cons, List.mem_cons]
    by_cases here : failure.1 = place
    · subst here
      simp only [if_true, true_or, Option.map_map]
      congr 1
      funext client
      simp
    · have elsewhere : ¬place = failure.1 := Ne.symm here
      simp only [here, elsewhere, if_false, false_or]

private theorem counters_disconnects (failed : List (Nat × TransportError)) (hub : Hub) :
    (failed.foldl (fun hub (client, error) => hub.disconnect client error.message) hub).counters = hub.counters := by
  induction failed generalizing hub with
  | nil => rfl
  | cons failure rest ih => exact ih _

/-- A message comes to every client as if there were no others. -/
theorem clients_broadcast (hub : Hub) (message : Message) :
    (hub.broadcast message).2.clients = hub.clients.map (·.take message) := by
  rcases sent : deliver message 0 hub.clients.toList with ⟨delivered, failed, clients⟩
  have after : clients = hub.clients.toList.map fun client => if client.connected then (client.send message).2 else client := by
    rw [← deliver_clients message _ 0, sent]
  have listed (place : Nat) := @mem_failed message hub.clients.toList place
  rw [sent] at listed
  simp only [broadcast, sent]
  apply Array.ext_getElem?
  intro place
  rw [clients_disconnects, Array.getElem?_map]
  simp only [listed, after, List.getElem?_toArray, List.getElem?_map, Array.getElem?_toList]
  cases there : hub.clients[place]? with
  | none => rfl
  | some client =>
    simp only [Option.map_some, Option.some.injEq, exists_eq_left']
    cases on : client.connected with
    | false => simp [Client.take, on]
    | true =>
      cases outcome : client.transport.outcome client.attempts message with
      | none => simp [Client.take, Client.takes, Client.send_of_none outcome, on, outcome]
      | some error => simp [Client.take, Client.takes, Client.send_of_some outcome, on, outcome]

theorem delivered_broadcast (hub : Hub) (message : Message) :
    (hub.broadcast message).1 = hub.clients.countP (·.takes message) := by
  rw [← Array.countP_toList, ← deliver_count message _ 0]
  rfl

theorem counters_broadcast (hub : Hub) (message : Message) :
    (hub.broadcast message).2.counters.deliveries = hub.counters.deliveries + hub.clients.countP (·.takes message) ∧
      (hub.broadcast message).2.counters.disconnects + hub.clients.countP (·.takes message) =
        hub.counters.disconnects + hub.clientCount := by
  have every := deliver_accounts message hub.clients.toList 0
  have reached := deliver_count message hub.clients.toList 0
  rcases sent : deliver message 0 hub.clients.toList with ⟨delivered, failed, clients⟩
  rw [sent] at every reached
  dsimp only at every reached
  rw [clientCount, ← Array.countP_toList, ← Array.countP_toList]
  simp only [broadcast, sent, counters_disconnects]
  omega

end Hub
end FreshDocs.Sync
