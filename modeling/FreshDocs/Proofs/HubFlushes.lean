import FreshDocs.Proofs.HubFates
import FreshDocs.Proofs.HubMessages

/-! What a flush passes on, and what it leaves behind. The batch has the last revision of each document in the queue, and
it is also the last one of this document that entered the queue at all. -/

namespace FreshDocs.Sync.Hub

/-! ### The batch -/

/-- No revision behind this place in the queue is of the same document. -/
def IsLast (queue : List Revision) (place : Nat) : Prop :=
  ∃ revision, queue[place]? = some revision ∧
    ∀ later other, place < later → queue[later]? = some other → other.path ≠ revision.path

/-- The batch has the last revision of each document in the queue, in the order of their places. -/
structure Compacts (queue batch : List Revision) : Prop where
  documents : ∀ path, path ∈ batch.map (·.path) ↔ path ∈ queue.map (·.path)
  distinct : (batch.map (·.path)).Nodup
  places : ∃ places : List Nat, places.Pairwise (· < ·) ∧ (∀ place, place ∈ places ↔ IsLast queue place) ∧
    places.map (queue[·]?) = batch.map some

private theorem isLast_zero {first : Revision} {rest : List Revision} :
    IsLast (first :: rest) 0 ↔ ∀ other ∈ rest, other.path ≠ first.path := by
  constructor
  · intro ⟨revision, here, last⟩ other member
    cases here
    obtain ⟨place, found⟩ := List.mem_iff_getElem?.mp member
    exact last (place + 1) other (Nat.zero_lt_succ place) found
  · intro alone
    refine ⟨first, rfl, fun later other beyond found => ?_⟩
    obtain ⟨place, rfl⟩ := Nat.exists_eq_add_of_lt beyond
    exact alone other (List.mem_of_getElem? found)

private theorem isLast_succ {first : Revision} {rest : List Revision} {place : Nat} :
    IsLast (first :: rest) (place + 1) ↔ IsLast rest place := by
  constructor
  · intro ⟨revision, here, last⟩
    exact ⟨revision, here, fun later other beyond found => last (later + 1) other (Nat.succ_lt_succ beyond) found⟩
  · intro ⟨revision, here, last⟩
    refine ⟨revision, here, fun later other beyond found => ?_⟩
    cases later with
    | zero => exact absurd beyond (Nat.not_lt_zero _)
    | succ later => exact last later other (Nat.lt_of_succ_lt_succ beyond) found

private theorem mem_paths_compact (queue : List Revision) (path : String) :
    path ∈ (compact queue).map (·.path) ↔ path ∈ queue.map (·.path) := by
  constructor
  · exact fun member => ((compact_sublist queue).map _).subset member
  · intro member
    obtain ⟨revision, queued, rfl⟩ := List.mem_map.mp member
    cases last : latest? (·.path = revision.path) queue with
    | none => simpa using latest?_eq_none.mp last revision queued
    | some found =>
      have same : found.path = revision.path := of_decide_eq_true (latest?_some last).2
      rw [← same] at last ⊢
      exact List.mem_map_of_mem (mem_compact.mpr last)

theorem compacts_compact (queue : List Revision) : Compacts queue (compact queue) := by
  refine ⟨mem_paths_compact queue, ?_, ?_⟩
  · induction queue with
    | nil => exact .nil
    | cons first rest ih =>
      rw [compact]
      split
      next => exact ih
      next alone =>
        rw [List.map_cons, List.nodup_cons, mem_paths_compact]
        refine ⟨fun member => alone ?_, ih⟩
        simpa using member
  · induction queue with
    | nil => exact ⟨[], .nil, by simp [IsLast], rfl⟩
    | cons first rest ih =>
      obtain ⟨places, ordered, last, found⟩ := ih
      have shifted : (places.map (· + 1)).Pairwise (· < ·) :=
        List.pairwise_map.mpr (ordered.imp Nat.succ_lt_succ)
      have behind : (places.map (· + 1)).map ((first :: rest)[·]?) = (compact rest).map some := by
        rw [List.map_map, ← found]
        rfl
      have later (place : Nat) : place + 1 ∈ places.map (· + 1) ↔ IsLast (first :: rest) (place + 1) := by
        rw [isLast_succ, ← last]
        simp
      rw [compact]
      split
      next followed =>
        refine ⟨places.map (· + 1), shifted, fun place => ?_, behind⟩
        cases place with
        | zero => simpa [isLast_zero] using followed
        | succ place => exact later place
      next alone =>
        refine ⟨0 :: places.map (· + 1), List.pairwise_cons.mpr ⟨by simp, shifted⟩, fun place => ?_,
          congrArg (List.cons (some first)) behind⟩
        cases place with
        | zero => simpa [isLast_zero] using alone
        | succ place => simpa using later place

/-! ### What entered the queue -/

/-- The last revision of a document in the queue is the last one of the document that entered. -/
def Trails (entered queue : List Revision) : Prop :=
  ∀ path revision, latest? (·.path = path) queue = some revision → latest? (·.path = path) entered = some revision

namespace Trails
variable {entered : List Revision}

theorem enqueue {base : Hub} (trails : Trails entered base.queue) (revision : Revision) :
    Trails (entered ++ [revision]) (base.enqueue revision).2.queue := by
  have line : Trails (entered ++ [revision]) (base.queue ++ [revision]) := by
    intro path found last
    rw [latest?_append, latest?_singleton] at last ⊢
    by_cases same : revision.path = path
    · simpa [same] using last
    · simp only [same, decide_false, Bool.false_eq_true, if_false, Option.none_or] at last ⊢
      exact trails path found last
  obtain ⟨-, queued⟩ | ⟨oldest, rest, -, shape, queued⟩ := enqueue_cases base revision
  · rw [queued]
    exact line
  · rw [queued]
    intro path found last
    apply line path found
    rw [shape, latest?_cons, last, Option.some_or]

theorem filter {queue : List Revision} (trails : Trails entered queue) (path : String) :
    Trails entered (queue.filter (·.path ≠ path)) := by
  intro other revision last
  obtain ⟨member, same⟩ := latest?_some last
  have kept : revision.path ≠ path := of_decide_eq_true (List.mem_filter.mp member).2
  have apart : other ≠ path := of_decide_eq_true same ▸ kept
  rw [latest?_filter (by simpa using fun candidate wanted => wanted ▸ apart)] at last
  exact trails other revision last

theorem step {hub : Hub} (trails : Trails entered hub.queue) (now : Timestamp) (request : Request) :
    Trails (entered ++ (request.entries now hub).filterMap Entry.accepted?) (request.apply now hub).queue := by
  have happened := change now hub request
  generalize after : (request.apply now hub).docket = docket at happened
  have queue : (request.apply now hub).queue = docket.queue := congrArg Docket.queue after
  rw [queue]
  cases happened with
  | idle quiet =>
    rw [quiet, List.filterMap_nil, List.append_nil]
    exact trails
  | absorbed held =>
    rw [entries_absorbed held, List.filterMap_nil, List.append_nil]
    exact trails
  | raised free found =>
    rw [entries_raised free found, List.filterMap_nil, List.append_nil]
    exact trails.filter _
  | queued free clear =>
    rw [entries_queued free clear]
    have pruned : Trails entered (hub.pruneRecent now).queue := trails
    exact pruned.enqueue _
  | @settled id resolution conflict known =>
    rw [entries_settled resolution known]
    have settled : Trails entered (hub.settle id conflict.path).queue := trails
    exact settled.enqueue _
  | flushed =>
    intro path revision last
    cases last

theorem run {hub : Hub} (trails : Trails entered hub.queue) (requests : List (Timestamp × Request)) :
    Trails (entered ++ Hub.entered hub requests) (Hub.run hub requests).queue := by
  induction requests generalizing hub entered with
  | nil => simpa [Hub.entered, ledger, Hub.run] using trails
  | cons entry rest ih =>
    have later := ih (trails.step entry.1 entry.2)
    simpa only [Hub.entered, ledger, Hub.run, List.filterMap_append, List.append_assoc] using later

end Trails

/-! ### Deliveries -/

def tally (clients : Array Client) : List Message → List Nat
  | [] => []
  | message :: rest => clients.countP (·.takes message) :: tally (clients.map (·.take message)) rest

private theorem passOn_cons (now : Timestamp) (revision : Revision) (rest : List Revision) (hub : Hub) :
    let message := Message.ofRevision now revision
    let count := hub.clients.countP (·.takes message)
    let sent := (hub.broadcast message).2.emit (.broadcast revision.id revision.path count)
    passOn now (revision :: rest) hub = (count + (passOn now rest sent).1, (passOn now rest sent).2) := by
  simp only [← delivered_broadcast]
  rfl

private theorem passOn_delivered (now : Timestamp) (batch : List Revision) (hub : Hub) :
    (passOn now batch hub).1 = (tally hub.clients (batch.map (.ofRevision now))).sum := by
  induction batch generalizing hub with
  | nil => rfl
  | cons revision rest ih =>
    simp only [passOn_cons, ih, emit, clients_broadcast, List.map_cons, tally, List.sum_cons]

theorem notices_passOn (now : Timestamp) (batch : List Revision) (hub : Hub) :
    (passOn now batch hub).2.notices = hub.notices ++
      batch.zipWith (fun revision count => .broadcast revision.id revision.path count)
        (tally hub.clients (batch.map (.ofRevision now))) := by
  induction batch generalizing hub with
  | nil => simp [passOn]
  | cons revision rest ih =>
    have sent (count : Nat) := ((Publishes.broadcast hub (.ofRevision now revision)).trans
      (.emit _ (.broadcast revision.id revision.path count) rfl)).notices
    simp only [passOn_cons, ih, sent]
    simp only [emit, clients_broadcast, List.map_cons, tally, List.zipWith_cons_cons, List.nil_append,
      List.append_assoc, List.singleton_append]

private theorem reached_passOn (now : Timestamp) (batch : List Revision) (hub : Hub) :
    (passOn now batch hub).2.reached = hub.reached + (passOn now batch hub).1 := by
  induction batch generalizing hub with
  | nil => rfl
  | cons revision rest ih =>
    have same (event : Event) : ((hub.broadcast (.ofRevision now revision)).2.emit event).reached =
        (hub.broadcast (.ofRevision now revision)).2.reached := rfl
    simp only [passOn_cons, ih, same, reached_broadcast, Nat.add_assoc]

def drained (hub : Hub) : Hub :=
  { hub with
    queue := []
    recent := (compact hub.queue).foldl (fun recent revision => recent.insert revision.path revision) hub.recent
    counters := { hub.counters with broadcasts := hub.counters.broadcasts + (compact hub.queue).length } }

theorem flush_eq (hub : Hub) (now : Timestamp) :
    let passed := passOn now (compact hub.queue) hub.drained
    hub.flush now =
      ({ broadcast := (compact hub.queue).length
         compacted := hub.queue.length - (compact hub.queue).length
         delivered := passed.1 }, passed.2) := by
  cases shape : hub.queue with
  | nil =>
    have same : hub.drained = hub := by
      obtain ⟨⟩ := hub
      cases shape
      rfl
    rw [flush_of_empty now shape, same]
    rfl
  | cons first rest => simp only [flush, drained, shape, List.isEmpty_cons, Bool.false_eq_true, if_false]

/-- At all times, a flush passes on a batch with one revision for each document in the queue, the last one of it that
entered. Every client gets one message for each of them, in the order in which they stood in the queue, and what the
flush reports and remembers is about this batch. -/
theorem run_flush_passes_on (settings : Settings) (ids : Uuid.Supply) (requests : List (Timestamp × Request))
    (now : Timestamp) :
    let opened : Hub := { settings, ids }
    let hub := run opened requests
    let flushed := hub.flush now
    ∃ batch, Compacts hub.queue batch ∧
      (∀ revision ∈ batch, latest? (·.path = revision.path) (entered opened requests) = some revision) ∧
      flushed.2.queue = [] ∧
      flushed.2.clients = hub.clients.map (fun client => (batch.map (.ofRevision now)).foldl Client.take client) ∧
      (let counts := tally hub.clients (batch.map (.ofRevision now))
       flushed.2.notices = hub.notices ++
         batch.zipWith (fun revision count => .broadcast revision.id revision.path count) counts ∧
       flushed.1.delivered = counts.sum ∧ flushed.2.reached = hub.reached + flushed.1.delivered) ∧
      flushed.1.broadcast = batch.length ∧ flushed.1.broadcast + flushed.1.compacted = hub.queue.length ∧
      (∀ revision ∈ batch, flushed.2.recent[revision.path]? = some revision) ∧
      ∀ path, path ∉ hub.queue.map (·.path) → flushed.2.recent[path]? = hub.recent[path]? := by
  intro opened hub flushed
  have shape : flushed = _ := flush_eq hub now
  have trails : Trails (entered opened requests) hub.queue := by
    have start : Trails [] opened.queue := fun path revision last => by cases last
    simpa using start.run requests
  have recent (path : String) : flushed.2.recent[path]? = (latest? (·.path = path) hub.queue).or hub.recent[path]? := by
    have after : flushed.2.recent = hub.drained.recent := congrArg Docket.recent (docket_flush hub now)
    rw [after]
    exact remembered_compact hub.queue hub.recent path
  have fewer : (compact hub.queue).length ≤ hub.queue.length := (compact_sublist hub.queue).length_le
  refine ⟨compact hub.queue, compacts_compact hub.queue, ?_, ?_, ?_, ⟨?_, ?_, ?_⟩, ?_, ?_, ?_, ?_⟩
  · exact fun revision member => trails revision.path revision (mem_compact.mp member)
  · exact congrArg Docket.queue (docket_flush hub now)
  · exact (Sends.flush hub now).clients
  · rw [shape]
    exact notices_passOn now _ hub.drained
  · rw [shape]
    exact passOn_delivered now _ hub.drained
  · rw [shape]
    exact reached_passOn now _ hub.drained
  · rw [shape]
  · rw [shape]
    exact Nat.add_sub_cancel' fewer
  · intro revision member
    rw [recent, mem_compact.mp member, Option.some_or]
  · intro path absent
    have none : latest? (·.path = path) hub.queue = none := by
      rw [latest?_eq_none]
      simpa using absent
    rw [recent, none, Option.none_or]

end FreshDocs.Sync.Hub
