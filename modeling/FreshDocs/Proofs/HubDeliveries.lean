import FreshDocs.Proofs.HubMessages
import Mathlib.Data.List.TakeWhile

/-! What clients get. A client has every message from its registration until it leaves, or until
its own transport fails; the transports of others make no difference to it. -/

namespace FreshDocs.Sync

/-- A transport takes some messages, when they are the first that it is given. -/
def Transport.Takes (transport : Transport) (messages : List Message) : Prop :=
  ∀ (place : Nat) message, messages[place]? = some message → transport.outcome place message = none

/-- Whether a transport takes a message does not depend on the number of clients in a sign of life. -/
def Transport.Blind (transport : Transport) : Prop :=
  ∀ attempts first second, Message.Alike first second →
    (transport.outcome attempts first).isNone = (transport.outcome attempts second).isNone

/-- How a client fares with the messages that are due to it. Its transport takes them all, and then it
is still on unless it has left. Or it takes those before a message at which it fails, and after that
one the transport is given nothing. -/
inductive Client.Fares (transport : Transport) (due : List Message) (stays : Bool) : Client → Prop where
  | served (taken : transport.Takes due) :
      Fares transport due stays { transport, connected := stays, attempts := due.length, received := due.toArray }
  | cut {before after : List Message} {message : Message} {error : TransportError}
      (split : due = before ++ message :: after) (taken : transport.Takes before)
      (fails : transport.outcome before.length message = some error) :
      Fares transport due stays
        { transport, connected := false, attempts := before.length + 1, received := before.toArray }

namespace Transport

variable {transport : Transport} {messages : List Message} {message : Message}

theorem Takes.nil (transport : Transport) : transport.Takes [] := by
  intro place message found
  cases found

private theorem Takes.snoc (taken : transport.Takes messages) (clear : transport.outcome messages.length message = none) :
    transport.Takes (messages ++ [message]) := by
  intro place other found
  rcases Nat.lt_trichotomy place messages.length with inside | here | beyond
  · rw [List.getElem?_append_left inside] at found
    exact taken place other found
  · subst here
    rw [List.getElem?_concat_length] at found
    cases found
    exact clear
  · rw [List.getElem?_eq_none] at found
    · cases found
    · rw [List.length_append, List.length_singleton]
      omega

theorem Takes.alike {others : List Message} (taken : transport.Takes messages) (blind : transport.Blind)
    (same : List.Forall₂ Message.Alike messages others) : transport.Takes others := by
  intro place other found
  obtain ⟨inside, rfl⟩ := List.getElem?_eq_some_iff.mp found
  have within : place < messages.length := same.length_eq ▸ inside
  have clear := blind place messages[place] others[place] (same.get within inside)
  rw [taken place _ (List.getElem?_eq_getElem within)] at clear
  exact Option.isNone_iff_eq_none.mp clear.symm

end Transport

private theorem Client.takes_of_off {client : Client} (off : client.connected = false) (messages : List Message) :
    messages.foldl Client.take client = client := by
  induction messages with
  | nil => rfl
  | cons message rest ih =>
    have same : client.take message = client := by simp [Client.take, off]
    rw [List.foldl_cons, same, ih]

namespace Client.Fares

variable {transport : Transport} {due : List Message} {stays : Bool} {client : Client}

theorem opened (transport : Transport) : Fares transport [] true { transport } :=
  .served (.nil transport)

private theorem transport_eq (fares : Fares transport due stays client) : client.transport = transport := by
  cases fares <;> rfl

private theorem all_of_on (fares : Fares transport due stays client) (on : client.connected = true) :
    client.received.toList = due ∧ stays = true := by
  cases fares with
  | served taken => exact ⟨rfl, on⟩
  | cut => cases on

theorem off_of_left (fares : Fares transport due false client) : client.connected = false := by
  cases fares <;> rfl

theorem take (fares : Fares transport due true client) (message : Message) :
    Fares transport (due ++ [message]) true (client.take message) := by
  cases fares with
  | served taken =>
    cases outcome : transport.outcome due.length message with
    | none =>
      have next : Fares transport (due ++ [message]) true _ := .served (taken.snoc outcome)
      simpa [Client.take, Client.send, outcome] using next
    | some error =>
      have next : Fares transport (due ++ [message]) true _ := .cut rfl taken outcome
      simpa [Client.take, Client.send, outcome] using next
  | @cut before after failed error split taken fails =>
    have longer : due ++ [message] = before ++ failed :: (after ++ [message]) := by
      rw [split, List.append_assoc, List.cons_append]
    exact .cut longer taken fails

theorem takes (fares : Fares transport due true client) (messages : List Message) :
    Fares transport (due ++ messages) true (messages.foldl Client.take client) := by
  induction messages generalizing due client with
  | nil => rwa [List.append_nil]
  | cons message rest ih =>
    rw [List.append_cons]
    exact ih (fares.take message)

theorem leave (fares : Fares transport due true client) :
    Fares transport due false { client with connected := false } := by
  cases fares with
  | served taken => exact .served taken
  | cut split taken fails => exact .cut split taken fails

private theorem unique {other : Client} (one : Fares transport due stays client) (two : Fares transport due stays other) :
    client = other := by
  have bound {before after : List Message} {message : Message} {error : TransportError}
      (split : due = before ++ message :: after) (fails : transport.outcome before.length message = some error)
      {taken : List Message} (takes : transport.Takes taken) (started : taken <+: due) : taken.length ≤ before.length := by
    apply Nat.le_of_not_lt
    intro beyond
    obtain ⟨rest, whole⟩ := started
    have there : taken[before.length]? = some message := by
      rw [← List.getElem?_append_left beyond, whole, split, List.getElem?_append_right (Nat.le_refl _), Nat.sub_self]
      rfl
    rw [takes _ _ there] at fails
    cases fails
  have short {before after : List Message} {message : Message} (split : due = before ++ message :: after) :
      before.length < due.length := by
    rw [split, List.length_append, List.length_cons]
    omega
  cases one with
  | served taken =>
    cases two with
    | served => rfl
    | cut split _ fails => exact absurd (bound split fails taken (List.prefix_refl _)) (Nat.not_le.mpr (short split))
  | cut split taken fails =>
    cases two with
    | served all => exact absurd (bound split fails all (List.prefix_refl _)) (Nat.not_le.mpr (short split))
    | cut again others failing =>
      have longer := bound split fails others ⟨_, again.symm⟩
      have shorter := bound again failing taken ⟨_, split.symm⟩
      obtain ⟨rfl, -⟩ := List.append_inj (split.symm.trans again) (Nat.le_antisymm shorter longer)
      rfl

theorem alike {others : List Message} {twin : Client} (blind : transport.Blind)
    (same : List.Forall₂ Message.Alike due others) (one : Fares transport due stays client)
    (two : Fares transport others stays twin) :
    List.Forall₂ Message.Alike client.received.toList twin.received.toList ∧
      twin.attempts = client.attempts ∧ twin.connected = client.connected := by
  cases one with
  | served taken =>
    have all := two.unique (.served (taken.alike blind same))
    rw [all]
    exact ⟨same, same.length_eq.symm, rfl⟩
  | @cut before after message error split taken fails =>
    subst split
    have begun := List.forall₂_take before.length same
    have ended := List.forall₂_drop before.length same
    rw [List.take_left] at begun
    rw [List.drop_left] at ended
    have whole := (List.take_append_drop before.length others).symm
    generalize others.take before.length = first at begun whole
    generalize others.drop before.length = second at ended whole
    cases ended with
    | @cons _ other _ later near rest =>
      have failing := blind before.length message other near
      rw [fails] at failing
      cases outcome : transport.outcome before.length other with
      | none => simp [outcome] at failing
      | some reason =>
        rw [begun.length_eq] at outcome
        rw [two.unique (.cut whole (taken.alike blind begun) outcome)]
        exact ⟨begun, congrArg (· + 1) begun.length_eq.symm, rfl⟩

end Client.Fares

namespace Hub

/-! ### Requests -/

def Request.registers : Request → Bool
  | .register _ => true
  | _ => false

def Request.dismisses (place : Nat) : Request → Bool
  | .deregister client => client = place
  | _ => false

def Request.departs (hub : Hub) : Request → Bool
  | .deregister client => (hub.deregister client).1
  | _ => false

def departures (hub : Hub) : List (Timestamp × Request) → Nat
  | [] => 0
  | (now, request) :: rest => (request.departs hub).toNat + departures (request.apply now hub) rest

def registrations (requests : List (Timestamp × Request)) : Nat :=
  requests.countP (·.2.registers)

def Request.serve (now : Timestamp) (hub : Hub) (place : Nat) (request : Request) (client : Client) : Client :=
  if request.dismisses place then { client with connected := false }
  else (request.messages now hub).foldl Client.take client

section
variable {hub : Hub} {now : Timestamp} {request : Request} {place : Nat} {client : Client}

theorem clients_deregister (hub : Hub) (left place : Nat) :
    (hub.deregister left).2.clients[place]? = hub.clients[place]?.map fun client =>
      if left = place then { client with connected := false } else client := by
  simp only [deregister]
  split
  next present =>
    simp only [disconnect, emit, Array.getElem?_modify]
    by_cases same : left = place <;> simp [same]
  next absent =>
    cases found : hub.clients[place]? with
    | none => rfl
    | some client =>
      by_cases same : left = place
      · subst same
        have off : client.connected = false := by simpa [isConnected, found] using absent
        rw [Option.map_some, if_pos rfl, ← off]
      · rw [Option.map_some, if_neg same]

theorem sends_apply (now : Timestamp) (hub : Hub) {request : Request} (other : request.registers = false)
    (stay : ∀ place, request.dismisses place = false) : Sends hub (request.apply now hub) (request.messages now hub) := by
  cases request with
  | register transport => cases other
  | deregister client =>
    have left := stay client
    simp [Request.dismisses] at left
  | submit revision => exact .submit hub now revision
  | resolve id resolution => exact .resolve hub now id resolution
  | flush => exact .flush hub now
  | broadcast message => exact .broadcast hub message
  | heartbeat => exact .broadcast hub _

private theorem size_apply (now : Timestamp) (hub : Hub) (request : Request) :
    (request.apply now hub).clients.size = hub.clients.size + request.registers.toNat := by
  cases request with
  | register transport => simp [Request.apply, register, emit, Request.registers]
  | deregister client =>
    simp only [Request.apply, deregister]
    split
    · simp [disconnect, emit, Request.registers]
    · rfl
  | _ =>
    rw [(sends_apply now hub rfl fun _ => rfl).clients, Array.size_map]
    rfl

/-- A request leaves every client to itself. -/
theorem serve_apply (now : Timestamp) {hub : Hub} (request : Request) {place : Nat} {client : Client}
    (found : hub.clients[place]? = some client) :
    (request.apply now hub).clients[place]? = some (request.serve now hub place client) := by
  cases request with
  | register transport =>
    obtain ⟨inside, -⟩ := Array.getElem?_eq_some_iff.mp found
    simp only [Request.apply, register, emit, Request.serve, Request.dismisses, Request.messages]
    rw [Array.getElem?_push_lt inside, ← Array.getElem?_eq_getElem inside, found]
    rfl
  | deregister left =>
    rw [Request.apply, clients_deregister, found]
    simp only [Request.serve, Request.dismisses, Request.messages, Option.map_some, decide_eq_true_eq, List.foldl_nil]
  | _ =>
    rw [(sends_apply now hub rfl fun _ => rfl).clients, Array.getElem?_map, found]
    rfl

private theorem account_deregister (hub : Hub) (left : Nat) :
    (hub.deregister left).2.clientCount + (hub.deregister left).1.toNat = hub.clientCount ∧
      (hub.deregister left).2.reached = hub.reached := by
  simp only [deregister]
  split
  next present =>
    cases found : hub.clients[left]? with
    | none => simp [isConnected, found] at present
    | some client =>
      have on : client.connected = true := by simpa [isConnected, found] using present
      obtain ⟨inside, there⟩ := Array.getElem?_eq_some_iff.mp found
      have listed : left < hub.clients.toList.length := inside
      obtain ⟨before, other, after, split, here, modified⟩ :=
        List.exists_of_modify (fun client : Client => { client with connected := false }) listed
      have same : other = client := by
        rw [← there, ← Array.getElem_toList]
        simp [split, ← here]
      subst same
      simp only [clientCount, reached, disconnect, emit, ← Array.countP_toList, Array.toList_modify, modified]
      rw [split]
      simp [on]
      omega
  next absent => exact ⟨rfl, rfl⟩

private theorem account_apply (now : Timestamp) (hub : Hub) (request : Request) :
    (request.apply now hub).clientCount + (request.departs hub).toNat + (request.apply now hub).counters.disconnects =
        hub.clientCount + request.registers.toNat + hub.counters.disconnects ∧
      (request.apply now hub).counters.deliveries + hub.reached =
        hub.counters.deliveries + (request.apply now hub).reached := by
  have sent : request.registers = false → (∀ place, request.dismisses place = false) → _ := sends_apply now hub
  cases request with
  | register transport =>
    simp [Request.apply, register, emit, Request.registers, Request.departs, clientCount, reached]
  | deregister client =>
    obtain ⟨count, reaches⟩ := account_deregister hub client
    have counters : (hub.deregister client).2.counters = hub.counters := by
      unfold deregister
      split <;> rfl
    constructor
    · simp only [Request.apply, Request.departs, Request.registers, counters, Bool.toNat_false]
      omega
    · rw [Request.apply, counters, reaches]
  | _ =>
    obtain ⟨-, deliveries, places⟩ := sent rfl fun _ => rfl
    refine ⟨?_, deliveries⟩
    simp only [Request.departs, Request.registers, Bool.toNat_false]
    omega

end

/-! ### Runs -/

private theorem account_run (requests : List (Timestamp × Request)) (hub : Hub) :
    (run hub requests).clientCount + departures hub requests + (run hub requests).counters.disconnects =
        hub.clientCount + registrations requests + hub.counters.disconnects ∧
      (run hub requests).counters.deliveries + hub.reached = hub.counters.deliveries + (run hub requests).reached := by
  induction requests generalizing hub with
  | nil => exact ⟨rfl, rfl⟩
  | cons entry rest ih =>
    obtain ⟨now, request⟩ := entry
    obtain ⟨places, deliveries⟩ := account_apply now hub request
    obtain ⟨later, further⟩ := ih (request.apply now hub)
    have more : registrations ((now, request) :: rest) = request.registers.toNat + registrations rest := by
      rw [registrations, List.countP_cons, Nat.add_comm]
      cases request.registers <;> rfl
    rw [run, departures, more]
    constructor
    · omega
    · omega

theorem run_of_off {place : Nat} {client : Client} (off : client.connected = false) (requests : List (Timestamp × Request))
    {hub : Hub} (found : hub.clients[place]? = some client) : (run hub requests).clients[place]? = some client := by
  induction requests generalizing hub with
  | nil => exact found
  | cons entry rest ih =>
    obtain ⟨now, request⟩ := entry
    apply ih
    rw [serve_apply now request found, Request.serve]
    split
    · rw [← off]
    · rw [Client.takes_of_off off]

theorem run_fares {place : Nat} {transport : Transport} {due : List Message} {client : Client}
    (fares : client.Fares transport due true) (requests : List (Timestamp × Request)) {hub : Hub}
    (found : hub.clients[place]? = some client) :
    ∃ after, (run hub requests).clients[place]? = some after ∧
      after.Fares transport (due ++ messages hub (requests.takeWhile fun entry => !entry.2.dismisses place))
        (requests.all fun entry => !entry.2.dismisses place) := by
  induction requests generalizing hub due client with
  | nil =>
    refine ⟨client, found, ?_⟩
    simpa [messages] using fares
  | cons entry rest ih =>
    obtain ⟨now, request⟩ := entry
    have served := serve_apply now request found
    rw [Request.serve] at served
    -- What is due ends where the client leaves; it is off from then on.
    cases leaves : request.dismisses place with
    | true =>
      rw [leaves, if_pos rfl] at served
      refine ⟨_, run_of_off rfl rest served, ?_⟩
      simpa [leaves, messages] using fares.leave
    | false =>
      rw [leaves, if_neg Bool.false_ne_true] at served
      obtain ⟨after, reached, others⟩ := ih (fares.takes (request.messages now hub)) served
      refine ⟨after, reached, ?_⟩
      simpa [leaves, messages] using others

theorem run_registered {place : Nat} {client : Client} (requests : List (Timestamp × Request)) {hub : Hub}
    (later : hub.clients.size ≤ place) (found : (run hub requests).clients[place]? = some client) :
    ∃ earlier now transport later, requests = earlier ++ (now, .register transport) :: later ∧
      (run hub earlier).clients.size = place := by
  induction requests generalizing hub with
  | nil =>
    obtain ⟨inside, -⟩ := Array.getElem?_eq_some_iff.mp found
    exact absurd inside (Nat.not_lt.mpr later)
  | cons entry rest ih =>
    obtain ⟨now, request⟩ := entry
    have size := size_apply now hub request
    by_cases here : hub.clients.size = place ∧ request.registers = true
    · obtain ⟨here, registers⟩ := here
      cases request with
      | register transport => exact ⟨[], now, transport, rest, rfl, here⟩
      | _ => cases registers
    -- The next number is not given to this client, so it comes later.
    · have after : (request.apply now hub).clients.size ≤ place := by
        cases registers : request.registers with
        | false => simpa [size, registers] using later
        | true =>
          simp only [registers, and_true] at here
          simp only [size, registers, Bool.toNat_true]
          omega
      obtain ⟨earlier, time, transport, later, rfl, size⟩ := ih after found
      exact ⟨(now, request) :: earlier, time, transport, later, rfl, size⟩

/-! ### Runs without some clients -/

/-- The number of a client if some of those before it never register. -/
def rank (gone : Nat → Bool) (place : Nat) : Nat :=
  (List.range place).countP (!gone ·)

/-- A request if some clients never register, when the next number is given. -/
def Request.spared? (gone : Nat → Bool) (number : Nat) : Request → Option Request
  | .register transport => if gone number then none else some (.register transport)
  | .deregister client => if gone client then none else some (.deregister (rank gone client))
  | request => some request

/-- Requests if some clients never register. -/
def without (gone : Nat → Bool) (number : Nat) : List (Timestamp × Request) → List (Timestamp × Request)
  | [] => []
  | (now, request) :: rest =>
    (request.spared? gone number).toList.map (now, ·) ++ without gone (number + request.registers.toNat) rest

def Twins (client twin : Client) : Prop :=
  ∃ transport due others stays, List.Forall₂ Message.Alike due others ∧
    client.Fares transport due stays ∧ twin.Fares transport others stays

structure Spares (gone : Nat → Bool) (hub other : Hub) : Prop where
  docket : hub.docket = other.docket
  size : other.clients.size = rank gone hub.clients.size
  clients : ∀ place client, gone place = false → hub.clients[place]? = some client →
    ∃ twin, other.clients[rank gone place]? = some twin ∧ Twins client twin

section
variable {gone : Nat → Bool} {hub other : Hub} {client twin : Client}

private theorem rank_succ (gone : Nat → Bool) (place : Nat) : rank gone (place + 1) = rank gone place + (!gone place).toNat := by
  rw [rank, List.range_succ, List.countP_append, List.countP_singleton, rank]
  cases gone place <;> rfl

private theorem rank_mono {first second : Nat} (order : first ≤ second) : rank gone first ≤ rank gone second := by
  induction order with
  | refl => exact Nat.le_refl _
  | step _ ih =>
    rw [rank_succ]
    omega

private theorem rank_lt {first second : Nat} (order : first < second) (kept : gone first = false) :
    rank gone first < rank gone second := by
  have next : rank gone (first + 1) ≤ rank gone second := rank_mono order
  rw [rank_succ, kept] at next
  exact next

private theorem rank_inj {first second : Nat} (one : gone first = false) (two : gone second = false)
    (same : rank gone first = rank gone second) : first = second := by
  rcases Nat.lt_trichotomy first second with before | here | after
  · have less := rank_lt before one
    omega
  · exact here
  · have less := rank_lt after two
    omega

theorem Twins.takes {messages others : List Message} (twins : Twins client twin)
    (same : List.Forall₂ Message.Alike messages others) :
    Twins (messages.foldl Client.take client) (others.foldl Client.take twin) := by
  obtain ⟨transport, due, further, stays, alike, one, two⟩ := twins
  cases stays with
  | true => exact ⟨transport, _, _, true, List.rel_append alike same, one.takes messages, two.takes others⟩
  | false =>
    rw [Client.takes_of_off one.off_of_left, Client.takes_of_off two.off_of_left]
    exact ⟨transport, due, further, false, alike, one, two⟩

theorem Twins.leave (twins : Twins client twin) :
    Twins { client with connected := false } { twin with connected := false } := by
  obtain ⟨transport, due, further, stays, alike, one, two⟩ := twins
  cases stays with
  | true => exact ⟨transport, due, further, false, alike, one.leave, two.leave⟩
  | false =>
    have same {client : Client} (off : client.connected = false) : { client with connected := false } = client := by
      rw [← off]
    rw [same one.off_of_left, same two.off_of_left]
    exact ⟨transport, due, further, false, alike, one, two⟩

namespace Spares

private theorem pass (spares : Spares gone hub other) (now : Timestamp) {request : Request} (known : request.registers = false)
    (stay : ∀ place, request.dismisses place = false) : Spares gone (request.apply now hub) (request.apply now other) := by
  have one := sends_apply now hub known stay
  have two := sends_apply now other known stay
  constructor
  · exact docket_apply spares.docket now request
  · rw [one.clients, two.clients, Array.size_map, Array.size_map, spares.size]
  · intro place client kept found
    rw [one.clients, Array.getElem?_map] at found
    obtain ⟨before, there, rfl⟩ := Option.map_eq_some_iff.mp found
    obtain ⟨twin, placed, twins⟩ := spares.clients place before kept there
    refine ⟨_, ?_, twins.takes (messages_alike spares.docket now request)⟩
    rw [two.clients, Array.getElem?_map, placed]
    rfl

theorem register (spares : Spares gone hub other) (transport : Transport) :
    Spares gone (hub.register transport).2
      (if gone hub.clients.size then other else (other.register transport).2) := by
  have pushed : (hub.register transport).2.clients = hub.clients.push { transport } := rfl
  have also : (other.register transport).2.clients = other.clients.push { transport } := rfl
  constructor
  · split <;> exact spares.docket
  · rw [pushed, Array.size_push, rank_succ]
    cases left : gone hub.clients.size with
    | true => exact spares.size
    | false =>
      rw [if_neg Bool.false_ne_true, also, Array.size_push, spares.size]
      rfl
  · intro place client kept found
    rw [pushed, Array.getElem?_push] at found
    split at found
    next here =>
      cases found
      rw [here] at kept
      refine ⟨{ transport }, ?_, transport, [], [], true, .nil, .opened transport, .opened transport⟩
      rw [kept, if_neg Bool.false_ne_true, also, here, ← spares.size]
      exact Array.getElem?_push_size
    next =>
      obtain ⟨twin, placed, twins⟩ := spares.clients place client kept found
      refine ⟨twin, ?_, twins⟩
      split
      · exact placed
      · obtain ⟨inside, -⟩ := Array.getElem?_eq_some_iff.mp placed
        rw [also, Array.getElem?_push_lt inside, ← Array.getElem?_eq_getElem inside, placed]

theorem deregister (spares : Spares gone hub other) (left : Nat) :
    Spares gone (hub.deregister left).2
      (if gone left then other else (other.deregister (rank gone left)).2) := by
  have size (hub : Hub) (left : Nat) : (hub.deregister left).2.clients.size = hub.clients.size :=
    size_apply (.ofNanos 0) hub (.deregister left)
  constructor
  · rw [docket_deregister, spares.docket]
    split
    · rfl
    · rw [docket_deregister]
  · rw [size, ← spares.size]
    split
    · rfl
    · rw [size]
  · intro place client kept found
    rw [clients_deregister] at found
    obtain ⟨before, there, rfl⟩ := Option.map_eq_some_iff.mp found
    obtain ⟨twin, placed, twins⟩ := spares.clients place before kept there
    by_cases same : left = place
    · rw [if_pos same, same, kept, if_neg Bool.false_ne_true, clients_deregister, placed, Option.map_some, if_pos rfl]
      exact ⟨_, rfl, twins.leave⟩
    · refine ⟨twin, ?_, ?_⟩
      · cases gone_left : gone left with
        | true => exact placed
        | false =>
          rw [if_neg Bool.false_ne_true, clients_deregister, placed, Option.map_some, if_neg]
          exact fun here => same (rank_inj gone_left kept here)
      · rwa [if_neg same]

theorem step (spares : Spares gone hub other) (now : Timestamp) (request : Request) :
    Spares gone (request.apply now hub)
      (Hub.run other ((request.spared? gone hub.clients.size).toList.map (now, ·))) := by
  cases request with
  | register transport =>
    have next := spares.register transport
    simp only [Request.spared?]
    split at next
    next left => rwa [left]
    next left => rwa [if_neg left]
  | deregister client =>
    have next := spares.deregister client
    simp only [Request.spared?]
    split at next
    next left => rwa [left]
    next left => rwa [if_neg left]
  | _ => exact spares.pass now rfl fun _ => rfl

end Spares

theorem Spares.run (spares : Spares gone hub other) (requests : List (Timestamp × Request)) :
    Spares gone (Hub.run hub requests) (Hub.run other (without gone hub.clients.size requests)) := by
  induction requests generalizing hub other with
  | nil => exact spares
  | cons entry rest ih =>
    obtain ⟨now, request⟩ := entry
    rw [without, run_append, ← size_apply now]
    exact ih (spares.step now request)

end

/-- Every client has the messages from its registration on, each once and in order, until it leaves or
its transport fails, and then it is off. A broadcast tells how many it reached, and the books balance. If some
clients never register, the others are due the same, whatever the transports of those do, but for the numbers in
signs of life. So they fare alike, as long as their own transports do not decide by these numbers. -/
theorem run_delivers (settings : Settings) (ids : Uuid.Supply) (requests : List (Timestamp × Request)) :
    let hub := run { settings, ids } requests
    (∀ (place : Nat) client, hub.clients[place]? = some client →
      ∃ earlier now later, requests = earlier ++ (now, .register client.transport) :: later ∧
        (run { settings, ids } earlier).clients.size = place ∧
        let registered := ((run { settings, ids } earlier).register client.transport).2
        client.Fares client.transport (messages registered (later.takeWhile fun entry => !entry.2.dismisses place))
          (later.all fun entry => !entry.2.dismisses place) ∧
        (client.connected = true → client.received.toList = messages registered later)) ∧
      (∀ message, (hub.broadcast message).1 = hub.clients.countP (·.takes message) ∧
        (hub.broadcast message).2.clients = hub.clients.map (·.take message)) ∧
      hub.clientCount + departures { settings, ids } requests + hub.counters.disconnects = registrations requests ∧
      hub.counters.deliveries = hub.reached ∧
      ∀ gone, let other := run { settings, ids } (without gone 0 requests)
        other.clients.size = rank gone hub.clients.size ∧
        ∀ place client, gone place = false → hub.clients[place]? = some client →
          ∃ twin due others stays, other.clients[rank gone place]? = some twin ∧ List.Forall₂ Message.Alike due others ∧
            client.Fares client.transport due stays ∧ twin.Fares client.transport others stays ∧
            (client.transport.Blind → List.Forall₂ Message.Alike client.received.toList twin.received.toList ∧
              twin.attempts = client.attempts ∧ twin.connected = client.connected) := by
  intro hub
  have books := account_run requests { settings, ids }
  have empty : ({ settings, ids } : Hub).clientCount = 0 ∧ ({ settings, ids } : Hub).reached = 0 := ⟨rfl, rfl⟩
  rw [empty.1, empty.2, Nat.zero_add, Nat.zero_add, Nat.add_zero, Nat.add_zero] at books
  refine ⟨?_, ?_, books.1, books.2, ?_⟩
  · intro place client found
    obtain ⟨earlier, now, transport, later, rfl, here⟩ := run_registered requests (Nat.zero_le place) found
    have placed : ((run { settings, ids } earlier).register transport).2.clients[place]? = some { transport } := by
      rw [← here]
      exact Array.getElem?_push_size
    obtain ⟨after, reached, fares⟩ := run_fares (.opened transport) later placed
    have last : hub = run ((run { settings, ids } earlier).register transport).2 later := run_append _ _ _
    rw [last, reached] at found
    cases found
    rw [fares.transport_eq]
    refine ⟨earlier, now, later, rfl, here, fares, ?_⟩
    intro on
    obtain ⟨all, stayed⟩ := fares.all_of_on on
    have whole : later.takeWhile (fun entry => !entry.2.dismisses place) = later :=
      List.takeWhile_eq_self_iff.mpr (List.all_eq_true.mp stayed)
    rw [all, whole, List.nil_append]
  · exact fun message => ⟨delivered_broadcast hub message, clients_broadcast hub message⟩
  · intro gone other
    have started : Spares gone { settings, ids } { settings, ids } := by
      refine ⟨rfl, rfl, ?_⟩
      intro place client _ found
      simp at found
    have spares : Spares gone hub other := started.run requests
    refine ⟨spares.size, ?_⟩
    intro place client kept found
    obtain ⟨twin, placed, transport, due, others, stays, alike, one, two⟩ := spares.clients place client kept found
    cases one.transport_eq
    exact ⟨twin, due, others, stays, placed, alike, one, two, fun blind => one.alike blind alike two⟩

/-- One client takes everything. The other takes a single message, so it is off when the second number is told. -/
def shrinking : List (Timestamp × Request) :=
  [(.epoch, .register .reliable), (.epoch, .register (.failingAfter 1 "reset")), (.epoch, .heartbeat),
    (.epoch, .broadcast (.make .epoch .status .null)), (.epoch, .heartbeat)]

theorem shrinking_delivers :
    let hub := run { settings := {}, ids := { space := 1 } } shrinking
    let other := run { settings := {}, ids := { space := 1 } } (without (· = 1) 0 shrinking)
    (hub.clients.map (·.received.size)).toList = [3, 1] ∧
      ∃ client twin, hub.clients[0]? = some client ∧ client.transport.Blind ∧ other.clients[0]? = some twin ∧
        List.Forall₂ Message.Alike client.received.toList twin.received.toList ∧
        twin.attempts = client.attempts ∧ twin.connected = client.connected := by
  obtain ⟨-, -, -, -, spared⟩ := run_delivers {} { space := 1 } shrinking
  obtain ⟨-, fares⟩ := spared (· = 1)
  intro hub other
  refine ⟨by decide +kernel, ?_⟩
  cases found : hub.clients[0]? with
  | none =>
    have there : hub.clients[0]?.isSome = true := by decide +kernel
    simp [found] at there
  | some client =>
    have kind : hub.clients[0]?.map (·.transport) = some .reliable := rfl
    have blind : client.transport.Blind := by
      rw [found, Option.map_some, Option.some.injEq] at kind
      rw [kind]
      exact fun attempts first second alike => rfl
    obtain ⟨twin, due, others, stays, placed, -, -, -, alike⟩ := fares 0 client (by decide) found
    exact ⟨client, twin, rfl, blind, placed, alike blind⟩

/-- Takes nothing that tells of two clients. -/
def shy : Transport :=
  ⟨fun _ message => if (message.data.member? "clients").bind Json.natural? = some 2 then some .closed else none⟩

/-- A client that never takes anything costs another one its place: the number in the sign of life is one that the
other's transport does not take. -/
theorem shy_client_not_spared :
    let requests := [(.epoch, .register shy), (.epoch, .register .closed), (.epoch, .heartbeat),
      (.epoch, .broadcast (.make .epoch .status .null))]
    let hub := run { settings := {}, ids := { space := 1 } } requests
    let other := run { settings := {}, ids := { space := 1 } } (without (· = 1) 0 requests)
    (hub.clients.map (·.received.size)).toList = [0, 0] ∧ (other.clients.map (·.received.size)).toList = [2] :=
  ⟨by decide +kernel, by decide +kernel⟩

end Hub
end FreshDocs.Sync
