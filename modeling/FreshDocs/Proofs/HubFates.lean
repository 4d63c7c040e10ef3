import FreshDocs.Proofs.HubConflicts
import FreshDocs.Proofs.HubLedger
import FreshDocs.Proofs.HubNotices
import FreshDocs.Proofs.HubRegister

/-! What becomes of every revision that enters the queue of a hub: it waits, or it left by one of
four ways. What clients and watchers are told follows the register, one by one. -/

namespace FreshDocs.Sync.Hub

inductive Exchange where
  | submit (revision : Revision)
  | resolve (id : Uuid) (resolution : Resolution)
  | flush

def Exchange.request : Exchange → Request
  | .submit revision => .submit revision
  | .resolve id resolution => .resolve id resolution
  | .flush => .flush

def Exchange.record (now : Timestamp) (hub : Hub) (register : Register) : Exchange → Register
  | .submit revision =>
    match (hub.submit now revision).1 with
    | .queued _ => register.enter hub.queueLimit revision
    | .conflict id => register.purge revision.path id
    | .conflictUpdated _ => register
  | .resolve id resolution =>
    match (hub.resolve now id resolution).1 with
    | .ok revision => register.enter hub.queueLimit revision
    | .error _ => register
  | .flush => register.flush

def record (hub : Hub) (register : Register) : List (Timestamp × Exchange) → Register
  | [] => register
  | (now, exchange) :: rest => record (exchange.request.apply now hub) (exchange.record now hub register) rest

def Entry.accepted? : Entry → Option Revision
  | .accepted revision => some revision
  | .settled _ | .passedOn _ => none

def entered (hub : Hub) (requests : List (Timestamp × Request)) : List Revision :=
  (ledger hub requests).filterMap Entry.accepted?

def Request.compacted (now : Timestamp) (hub : Hub) : Request → Nat
  | .flush => (hub.flush now).1.compacted
  | _ => 0

def compacted (hub : Hub) : List (Timestamp × Request) → Nat
  | [] => 0
  | (now, request) :: rest => request.compacted now hub + compacted (request.apply now hub) rest

/-- What leaves a hub tells of the same fates as the register, one by one and in the same order. -/
structure Agrees (fated : List (Item × Fate)) (messages : List Message) (notices : List Event) : Prop where
  dropped : notices.filterMap Event.dropped? = (fatedBy Fate.isDropped fated).map (·.revision)
  told : (messages.filter (·.kind = .queue)).map (·.data.member? "dropped") =
    (fatedBy Fate.isDropped fated).map fun item => some (toJson item.revision.id)
  broadcast : notices.filterMap Event.broadcast? =
    (fatedBy Fate.isBroadcast fated).map fun item => (item.revision.id, item.revision.path)
  sent : (messages.filter (·.kind = .update)).map (·.data) =
    (fatedBy Fate.isBroadcast fated).map fun item => (toJson item.revision).canonical
  purged : ∀ item id, (item, Fate.purged id) ∈ fated →
    ∃ conflict : Conflict, .conflictDetected conflict ∈ notices ∧ conflict.id = id ∧ conflict.path = item.revision.path

/-! ### Hub and register together -/

theorem Agrees.append {first second : List (Item × Fate)} {messages others : List Message} {notices further : List Event}
    (one : Agrees first messages notices) (two : Agrees second others further) :
    Agrees (first ++ second) (messages ++ others) (notices ++ further) := by
  constructor
  · rw [List.filterMap_append, one.dropped, two.dropped, fatedBy_append, List.map_append]
  · rw [List.filter_append, List.map_append, one.told, two.told, fatedBy_append, List.map_append]
  · rw [List.filterMap_append, one.broadcast, two.broadcast, fatedBy_append, List.map_append]
  · rw [List.filter_append, List.map_append, one.sent, two.sent, fatedBy_append, List.map_append]
  · intro item id member
    rcases List.mem_append.mp member with before | now
    · obtain ⟨conflict, there, same⟩ := one.purged item id before
      exact ⟨conflict, List.mem_append_left _ there, same⟩
    · obtain ⟨conflict, there, same⟩ := two.purged item id now
      exact ⟨conflict, List.mem_append_right _ there, same⟩

/-- What a hub and its register have in common after revisions entered, some were compacted, and
messages were sent. -/
structure Kept (entered : List Revision) (compacted : Nat) (sent : List Message) (hub : Hub) (register : Register) :
    Prop where
  queue : register.waiting.map (·.revision) = hub.queue
  sound : register.Sound entered
  agrees : Agrees register.fated sent hub.notices
  holds : ∀ client ∈ hub.clients, client.Holds sent
  dropped : hub.counters.dropped = (fatedBy Fate.isDropped register.fated).length
  broadcasts : hub.counters.broadcasts = (fatedBy Fate.isBroadcast register.fated).length
  compactions : compacted = (fatedBy Fate.isCompacted register.fated).length

section
variable {batch : List Revision} {notices : List Event}

private theorem drops_of_broadcasts (each : List.Forall₂ (fun revision notice =>
    ∃ delivered, notice = Event.broadcast revision.id revision.path delivered) batch notices) :
    notices.filterMap Event.dropped? = [] := by
  induction each with
  | nil => rfl
  | cons first _ ih =>
    obtain ⟨delivered, rfl⟩ := first
    exact ih

private theorem broadcasts_of_broadcasts (each : List.Forall₂ (fun revision notice =>
    ∃ delivered, notice = Event.broadcast revision.id revision.path delivered) batch notices) :
    notices.filterMap Event.broadcast? = batch.map fun revision => (revision.id, revision.path) := by
  induction each with
  | nil => rfl
  | cons first _ ih =>
    obtain ⟨delivered, rfl⟩ := first
    exact congrArg (List.cons _) ih

end

private theorem compacted_flush (hub : Hub) (now : Timestamp) :
    (hub.flush now).1.compacted = hub.queue.length - (compact hub.queue).length := by
  unfold flush
  split
  next empty => rw [List.isEmpty_iff.mp empty]; rfl
  next => rfl

namespace Kept
variable {entered : List Revision} {compacted : Nat} {sent : List Message} {hub after : Hub} {register : Register}

theorem next {others : List Revision} {more : Nat} {messages : List Message} {notices : List Event} {later : Register}
    {added : List (Item × Fate)} (kept : Kept entered compacted sent hub register)
    (publishes : Publishes hub after messages notices) (agrees : Agrees added messages notices)
    (sound : later.Sound others) (fated : later.fated = register.fated ++ added)
    (queue : later.waiting.map (·.revision) = after.queue)
    (dropped : after.counters.dropped = hub.counters.dropped + (fatedBy Fate.isDropped added).length)
    (broadcasts : after.counters.broadcasts = hub.counters.broadcasts + (fatedBy Fate.isBroadcast added).length)
    (compactions : more = compacted + (fatedBy Fate.isCompacted added).length) :
    Kept others more (sent ++ messages) after later := by
  constructor
  · exact queue
  · exact sound
  · rw [fated, publishes.notices]
    exact kept.agrees.append agrees
  · exact publishes.reach sent kept.holds
  · rw [dropped, kept.dropped, fated, fatedBy_append, List.length_append]
  · rw [broadcasts, kept.broadcasts, fated, fatedBy_append, List.length_append]
  · rw [compactions, kept.compactions, fated, fatedBy_append, List.length_append]

/-- A revision enters the queue and the register, and both lose the same item if they are full. -/
theorem enter {base queued told : Hub} {revision : Revision} {dropped : Option Revision} {now : Timestamp}
    {notices : List Event} (kept : Kept entered compacted sent hub register)
    (shape : base.enqueue revision = (dropped, queued)) (queue : base.queue = hub.queue)
    (settings : base.settings = hub.settings) (counted : base.counters.dropped = hub.counters.dropped)
    (passed : base.counters.broadcasts = hub.counters.broadcasts) (same : after.docket = queued.docket)
    (publishes : Publishes hub after (dropped.toList.map (told.dropMessage now)) notices)
    (drops : notices.filterMap Event.dropped? = dropped.toList) (quiet : notices.filterMap Event.broadcast? = []) :
    Kept (entered ++ [revision]) compacted (sent ++ dropped.toList.map (told.dropMessage now)) after
      (register.enter hub.queueLimit revision) := by
  have limit : base.queueLimit = hub.queueLimit := by rw [queueLimit, settings, queueLimit]
  have length : register.waiting.length = hub.queue.length := by rw [← kept.queue, List.length_map]
  have after_queue : after.queue = queued.queue := congrArg Docket.queue same
  have after_dropped : after.counters.dropped = queued.counters.dropped := congrArg Docket.dropped same
  have after_broadcasts : after.counters.broadcasts = queued.counters.broadcasts := congrArg Docket.broadcasts same
  have line : (register.waiting ++ [⟨register.size, revision⟩] : List Item).map (·.revision) = base.queue ++ [revision] := by
    rw [List.map_append, kept.queue, queue]
    rfl
  have sound := kept.sound.enter hub.queueLimit revision
  rcases enqueue_cases base revision with ⟨room, queued_as⟩ | ⟨oldest, rest, full, hub_line, queued_as⟩
  · cases queued_as.symm.trans shape
    rcases register.enter_cases hub.queueLimit revision with ⟨-, entered_as⟩ | ⟨-, -, full, -, -⟩
    · have agrees : Agrees [] [] notices := ⟨drops, rfl, quiet, rfl, by simp⟩
      rw [entered_as] at sound ⊢
      apply kept.next publishes agrees sound
      · exact (List.append_nil _).symm
      · exact line.trans after_queue.symm
      · exact after_dropped.trans counted
      · exact after_broadcasts.trans passed
      · rfl
    · rw [queue, limit] at room
      omega
  · cases queued_as.symm.trans shape
    rcases register.enter_cases hub.queueLimit revision with ⟨room, -⟩ | ⟨first, left, -, register_line, entered_as⟩
    · rw [queue, limit] at full
      omega
    · rw [register_line, hub_line, List.map_cons, List.cons.injEq] at line
      obtain ⟨rfl, left_queue⟩ := line
      have agrees : Agrees [(first, .dropped)] [told.dropMessage now first.revision] notices := by
        refine ⟨drops, ?_, quiet, rfl, by simp⟩
        exact congrArg (fun name => [name]) (dropped_dropMessage told now first.revision)
      rw [entered_as] at sound ⊢
      apply kept.next publishes agrees sound
      · rfl
      · exact left_queue.trans after_queue.symm
      · exact after_dropped.trans (congrArg (· + 1) counted)
      · exact after_broadcasts.trans passed
      · rfl

/-- An exchange that leaves the queue alone leaves the register alone. -/
theorem still {messages : List Message} {notices : List Event} (kept : Kept entered compacted sent hub register)
    (publishes : Publishes hub after messages notices) (agrees : Agrees [] messages notices)
    (queue : after.queue = hub.queue) (dropped : after.counters.dropped = hub.counters.dropped)
    (broadcasts : after.counters.broadcasts = hub.counters.broadcasts) :
    Kept entered compacted (sent ++ messages) after register := by
  apply kept.next publishes agrees kept.sound
  · exact (List.append_nil _).symm
  · exact kept.queue.trans queue.symm
  · exact dropped
  · exact broadcasts
  · rfl

theorem submit (kept : Kept entered compacted sent hub register) (now : Timestamp) (revision : Revision) :
    ∃ messages, Kept (entered ++ ((Request.submit revision).entries now hub).filterMap Entry.accepted?) compacted
      (sent ++ messages) (hub.submit now revision).2 ((Exchange.submit revision).record now hub register) := by
  cases held : hub.conflictOf[revision.path]? with
  | some id =>
    have docket := docket_submit_absorbed now held
    rw [entries_absorbed held, List.filterMap_nil, List.append_nil]
    simp only [Exchange.record, outcome_absorbed now held]
    refine ⟨_, kept.still (publishes_absorbed held) ⟨rfl, rfl, rfl, rfl, by simp⟩ ?_ ?_ ?_⟩
    · exact congrArg Docket.queue docket
    · exact congrArg Docket.dropped docket
    · exact congrArg Docket.broadcasts docket
  | none =>
    cases found : hub.raised? now revision with
    | some conflict =>
      obtain ⟨path, id, -⟩ := raised?_shape found
      have docket := docket_submit_raised now held found
      have agrees : Agrees ((register.waiting.filter (·.revision.path = revision.path)).map (·, .purged hub.ids.draw.1))
          [.make now .conflict (toJson conflict)] [.conflictDetected conflict] := by
        constructor
        · rw [fatedBy_map]
          rfl
        · rw [fatedBy_map]
          rfl
        · rw [fatedBy_map]
          rfl
        · rw [fatedBy_map]
          rfl
        · intro item other member
          obtain ⟨held, inside, same⟩ := List.mem_map.mp member
          cases same
          have of_path := of_decide_eq_true (List.mem_filter.mp inside).2
          exact ⟨conflict, List.mem_singleton_self _, id, path.trans of_path.symm⟩
      rw [entries_raised held found, List.filterMap_nil, List.append_nil]
      simp only [Exchange.record, outcome_raised now held found]
      refine ⟨_, kept.next (publishes_raised held found) agrees (kept.sound.purge _ _) rfl ?_ ?_ ?_ ?_⟩
      · have queue : (hub.submit now revision).2.queue = hub.queue.filter (·.path ≠ conflict.path) :=
          congrArg Docket.queue docket
        rw [queue, ← kept.queue, List.filter_map, path]
        rfl
      · rw [fatedBy_map]
        exact congrArg Docket.dropped docket
      · rw [fatedBy_map]
        exact congrArg Docket.broadcasts docket
      · rw [fatedBy_map]
        rfl
    | none =>
      obtain ⟨dropped, outcome⟩ := outcome_queued now held found
      rcases shape : (hub.pruneRecent now).enqueue revision with ⟨lost, queued⟩
      obtain ⟨told, publishes⟩ := publishes_queued held found shape
      have docket := docket_submit_queued now held found
      rw [shape] at docket
      rw [entries_queued held found]
      simp only [Exchange.record, outcome]
      refine ⟨_, kept.enter shape rfl rfl rfl rfl docket publishes ?_ ?_⟩
      · cases lost <;> rfl
      · cases lost <;> rfl

theorem resolve (kept : Kept entered compacted sent hub register) (now : Timestamp) (id : Uuid) (resolution : Resolution) :
    ∃ messages, Kept (entered ++ ((Request.resolve id resolution).entries now hub).filterMap Entry.accepted?) compacted
      (sent ++ messages) (hub.resolve now id resolution).2 ((Exchange.resolve id resolution).record now hub register) := by
  cases known : hub.conflicts[id]? with
  | none =>
    have same := resolve_unknown now resolution known
    simp only [Request.entries, Exchange.record, same, List.filterMap_nil, List.append_nil]
    exact ⟨_, kept.still (.refl hub) ⟨rfl, rfl, rfl, rfl, by simp⟩ rfl rfl rfl⟩
  | some conflict =>
    rcases shape : (hub.settle id conflict.path).enqueue (conflict.settle hub.ids.draw.1 now resolution) with ⟨lost, queued⟩
    obtain ⟨told, publishes⟩ := publishes_settled resolution known shape
    have docket := docket_resolve now resolution known
    rw [shape] at docket
    rw [entries_settled resolution known]
    simp only [Exchange.record, resolve_known now resolution known]
    refine ⟨_, kept.enter shape rfl rfl rfl rfl docket publishes ?_ ?_⟩
    · cases lost <;> rfl
    · cases lost <;> rfl

theorem flush (kept : Kept entered compacted sent hub register) (now : Timestamp) :
    ∃ messages, Kept entered (compacted + (hub.flush now).1.compacted) (sent ++ messages) (hub.flush now).2 register.flush := by
  obtain ⟨notices, publishes, each⟩ := publishes_flush hub now
  have docket := docket_flush hub now
  have batch := judge_compact register.flushes register.waiting
  rw [kept.queue] at batch
  have agrees : Agrees (judge register.flushes register.waiting) ((compact hub.queue).map (.ofRevision now)) notices := by
    constructor
    · rw [judge_never rfl rfl]
      exact drops_of_broadcasts each
    · rw [judge_never rfl rfl]
      simp [List.filter_map, Function.comp_def, Message.ofRevision, Message.make]
    · rw [broadcasts_of_broadcasts each, ← batch, List.map_map]
      rfl
    · rw [← batch]
      simp [List.filter_map, Function.comp_def, Message.ofRevision, Message.make]
    · intro item id member
      rcases judge_fate member with same | same
      · cases same
      · cases same
  have counted := judge_count register.flushes register.waiting
  have passed : (fatedBy Fate.isBroadcast (judge register.flushes register.waiting)).length = (compact hub.queue).length := by
    rw [← batch, List.length_map]
  refine ⟨_, kept.next publishes agrees kept.sound.flush rfl ?_ ?_ ?_ ?_⟩
  · exact (congrArg Docket.queue docket).symm
  · rw [judge_never rfl rfl]
    exact congrArg Docket.dropped docket
  · rw [passed]
    exact congrArg Docket.broadcasts docket
  · rw [compacted_flush, ← kept.queue, List.length_map, kept.queue, ← passed]
    omega

theorem step (kept : Kept entered compacted sent hub register) (now : Timestamp) (exchange : Exchange) :
    ∃ messages, Kept (entered ++ (exchange.request.entries now hub).filterMap Entry.accepted?)
      (compacted + exchange.request.compacted now hub) (sent ++ messages) (exchange.request.apply now hub)
      (exchange.record now hub register) := by
  cases exchange with
  | submit revision => exact kept.submit now revision
  | resolve id resolution => exact kept.resolve now id resolution
  | flush =>
    have flushed := kept.flush now
    rwa [← List.append_nil entered] at flushed

theorem run (kept : Kept entered compacted sent hub register) (exchanges : List (Timestamp × Exchange)) :
    ∃ messages, Kept (entered ++ Hub.entered hub (exchanges.map (Prod.map id Exchange.request)))
      (compacted + Hub.compacted hub (exchanges.map (Prod.map id Exchange.request))) (sent ++ messages)
      (Hub.run hub (exchanges.map (Prod.map id Exchange.request))) (record hub register exchanges) := by
  induction exchanges generalizing hub register entered compacted sent with
  | nil =>
    refine ⟨[], ?_⟩
    simpa [Hub.entered, ledger, Hub.compacted, Hub.run, record] using kept
  | cons entry rest ih =>
    obtain ⟨now, exchange⟩ := entry
    obtain ⟨first, next⟩ := kept.step now exchange
    obtain ⟨others, last⟩ := ih next
    refine ⟨first ++ others, ?_⟩
    simpa [Hub.entered, ledger, Hub.compacted, Hub.run, record, List.append_assoc, Nat.add_assoc] using last

end Kept

theorem Kept.opened (settings : Settings) (ids : Uuid.Supply) (transports : Array Transport) :
    Kept [] 0 [] { settings, ids, clients := transports.map ({ transport := · }) } {} := by
  constructor
  · rfl
  · exact ⟨.refl _, .nil, by simp⟩
  · exact ⟨rfl, rfl, rfl, rfl, by simp⟩
  · intro client member
    obtain ⟨transport, -, rfl⟩ := Array.mem_map.mp member
    exact ⟨[], rfl, fun _ => rfl⟩
  · rfl
  · rfl
  · rfl

/-- Every revision that enters the queue of a hub has exactly one fate. It waits, or it left by one
of four ways, of which clients and feed are told as the register has them. -/
theorem run_fates (settings : Settings) (ids : Uuid.Supply) (transports : Array Transport)
    (exchanges : List (Timestamp × Exchange)) :
    let opened : Hub := { settings, ids, clients := transports.map ({ transport := · }) }
    let requests := exchanges.map (Prod.map id Exchange.request)
    let hub := run opened requests
    let register := record opened {} exchanges
    register.waiting.map (·.revision) = hub.queue ∧ register.Sound (entered opened requests) ∧
      (∃ sent, Agrees register.fated sent hub.notices ∧ ∀ client ∈ hub.clients, client.Holds sent) ∧
      (entered opened requests).length = hub.queue.length + hub.counters.broadcasts + compacted opened requests +
        hub.counters.dropped + (fatedBy Fate.isPurged register.fated).length := by
  obtain ⟨sent, kept⟩ := (Kept.opened settings ids transports).run exchanges
  rw [List.nil_append, Nat.zero_add, List.nil_append] at kept
  refine ⟨kept.queue, kept.sound, ⟨sent, kept.agrees, kept.holds⟩, ?_⟩
  have size := kept.sound.size_eq
  have all := fatedBy_count (record { settings, ids, clients := transports.map ({ transport := · }) } {} exchanges).fated
  rw [Register.size] at size
  rw [← size, ← kept.queue, kept.broadcasts, kept.compactions, kept.dropped, List.length_map]
  omega

end FreshDocs.Sync.Hub
