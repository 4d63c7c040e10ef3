import FreshDocs.Proofs.HubSteps

/-! What a run of a hub means for the revisions in its care: which were accepted, when the conflict
of a document was settled, and what was passed on. A hub itself remembers little of this. -/

namespace FreshDocs.Sync.Hub
open Std

inductive Entry where
  /-- A revision was put into the queue. -/
  | accepted (revision : Revision)
  /-- The conflict of a document was settled. -/
  | settled (path : String)
  /-- Revisions were passed on by a flush. -/
  | passedOn (batch : List Revision)

/-- What a request enters into the ledger. A conflict is settled before the revision that settles
it is accepted. -/
def Request.entries (now : Timestamp) (hub : Hub) : Request → List Entry
  | .submit revision =>
    match (hub.submit now revision).1 with
    | .queued _ => [.accepted revision]
    | .conflict _ | .conflictUpdated _ => []
  | .resolve id resolution =>
    match (hub.resolve now id resolution).1 with
    | .ok revision => [.settled revision.path, .accepted revision]
    | .error _ => []
  | .flush => [.passedOn (compact hub.queue)]
  | .register _ | .deregister _ | .broadcast _ | .heartbeat => []

def ledger (hub : Hub) : List (Timestamp × Request) → List Entry
  | [] => []
  | (now, request) :: rest => request.entries now hub ++ ledger (request.apply now hub) rest

/-- The revisions that a request takes out of the queue to pass them on or to make a conflict of
them, and those that it puts into a conflict at once. What overflows is not among them. -/
def Request.departed (now : Timestamp) (hub : Hub) : Request → List Revision
  | .submit revision =>
    match (hub.submit now revision).1 with
    | .queued _ => []
    | .conflict _ => hub.queue.filter (·.path = revision.path) ++ [revision]
    | .conflictUpdated _ => [revision]
  | .flush => hub.queue
  | .resolve _ _ | .register _ | .deregister _ | .broadcast _ | .heartbeat => []

def departed (hub : Hub) : List (Timestamp × Request) → List Revision
  | [] => []
  | (now, request) :: rest => request.departed now hub ++ departed (request.apply now hub) rest

theorem departed_append (hub : Hub) (first second : List (Timestamp × Request)) :
    departed hub (first ++ second) = departed hub first ++ departed (run hub first) second := by
  induction first generalizing hub with
  | nil => rfl
  | cons entry rest ih =>
    rw [List.cons_append, departed, departed, ih, List.append_assoc]
    rfl

/-- The revisions that a hub took in and did not drop. Those of one document stand in the order
in which they were taken in, since a queue is left from its front. -/
def accepted (hub : Hub) (requests : List (Timestamp × Request)) : List Revision :=
  departed hub requests ++ (run hub requests).queue

/-- What a request can do to the docket. -/
inductive Change (now : Timestamp) (hub : Hub) : Request → Docket → Prop where
  | idle {request : Request} (quiet : request.entries now hub = []) (still : request.departed now hub = []) :
      Change now hub request hub.docket
  | absorbed {revision : Revision} {id : Uuid} (held : hub.conflictOf[revision.path]? = some id) :
      Change now hub (.submit revision)
        (docket { hub with conflicts := hub.conflicts.modify id (·.absorb revision) })
  | raised {revision : Revision} {conflict : Conflict} (free : hub.conflictOf[revision.path]? = none)
      (found : hub.raised? now revision = some conflict) :
      Change now hub (.submit revision) (docket (raise { hub.pruneRecent now with ids := hub.ids.draw.2 } conflict))
  | queued {revision : Revision} (free : hub.conflictOf[revision.path]? = none)
      (clear : hub.raised? now revision = none) :
      Change now hub (.submit revision) ((hub.pruneRecent now).enqueue revision).2.docket
  | settled {id : Uuid} {resolution : Resolution} {conflict : Conflict}
      (known : hub.conflicts[id]? = some conflict) :
      Change now hub (.resolve id resolution)
        ((hub.settle id conflict.path).enqueue (conflict.settle hub.ids.draw.1 now resolution)).2.docket
  | flushed :
      Change now hub .flush (docket { hub with
        queue := []
        recent := (compact hub.queue).foldl (fun recent revision => recent.insert revision.path revision)
          hub.recent
        counters := { hub.counters with
          broadcasts := hub.counters.broadcasts + (compact hub.queue).length } })

theorem change (now : Timestamp) (hub : Hub) (request : Request) :
    Change now hub request (request.apply now hub).docket := by
  have idle {request : Request} {after : Hub} (quiet : request.entries now hub = [])
      (still : request.departed now hub = []) (same : after.docket = hub.docket) :
      Change now hub request after.docket :=
    same ▸ .idle quiet still
  cases request with
  | register transport => exact idle rfl rfl (docket_register hub transport)
  | deregister client => exact idle rfl rfl (docket_deregister hub client)
  | broadcast message => exact idle rfl rfl (docket_broadcast hub message)
  | heartbeat => exact idle rfl rfl (docket_heartbeat hub now)
  | submit revision =>
    cases held : hub.conflictOf[revision.path]? with
    | some id => exact docket_submit_absorbed now held ▸ .absorbed held
    | none =>
      cases found : hub.raised? now revision with
      | some conflict => exact docket_submit_raised now held found ▸ .raised held found
      | none => exact docket_submit_queued now held found ▸ .queued held found
  | resolve id resolution =>
    cases known : hub.conflicts[id]? with
    | none =>
      have same := resolve_unknown now resolution known
      refine idle ?_ rfl (by simp only [Request.apply, same])
      simp only [Request.entries, same]
    | some conflict => exact docket_resolve now resolution known ▸ .settled known
  | flush => exact docket_flush hub now ▸ .flushed

section
variable {hub : Hub} {now : Timestamp} {revision : Revision}

theorem entries_absorbed {id : Uuid} (held : hub.conflictOf[revision.path]? = some id) :
    (Request.submit revision).entries now hub = [] := by
  simp only [Request.entries, outcome_absorbed now held]

theorem entries_raised {conflict : Conflict} (free : hub.conflictOf[revision.path]? = none)
    (found : hub.raised? now revision = some conflict) : (Request.submit revision).entries now hub = [] := by
  simp only [Request.entries, outcome_raised now free found]

theorem entries_queued (free : hub.conflictOf[revision.path]? = none) (clear : hub.raised? now revision = none) :
    (Request.submit revision).entries now hub = [.accepted revision] := by
  obtain ⟨dropped, outcome⟩ := outcome_queued now free clear
  simp only [Request.entries, outcome]

theorem outcome_conflict_iff (free : hub.conflictOf[revision.path]? = none) :
    (∃ id, (hub.submit now revision).1 = .conflict id) ↔ (hub.raised? now revision).isSome = true := by
  cases found : hub.raised? now revision with
  | some conflict => exact ⟨fun _ => rfl, fun _ => ⟨_, outcome_raised now free found⟩⟩
  | none =>
    obtain ⟨dropped, outcome⟩ := outcome_queued now free found
    simp [outcome]

theorem settle_path (conflict : Conflict) (id : Uuid) (now : Timestamp) (resolution : Resolution) :
    (conflict.settle id now resolution).path = conflict.path := by
  cases resolution <;> rfl

theorem settle_timestamp (conflict : Conflict) (id : Uuid) (now : Timestamp) (resolution : Resolution) :
    (conflict.settle id now resolution).timestamp = now := by
  cases resolution <;> rfl

theorem entries_settled {id : Uuid} {conflict : Conflict} (resolution : Resolution)
    (known : hub.conflicts[id]? = some conflict) :
    (Request.resolve id resolution).entries now hub =
      [.settled conflict.path, .accepted (conflict.settle hub.ids.draw.1 now resolution)] := by
  simp only [Request.entries, resolve_known now resolution known, settle_path]

theorem departed_absorbed {id : Uuid} (held : hub.conflictOf[revision.path]? = some id) :
    (Request.submit revision).departed now hub = [revision] := by
  simp only [Request.departed, outcome_absorbed now held]

theorem departed_raised {conflict : Conflict} (free : hub.conflictOf[revision.path]? = none)
    (found : hub.raised? now revision = some conflict) :
    (Request.submit revision).departed now hub = hub.queue.filter (·.path = revision.path) ++ [revision] := by
  simp only [Request.departed, outcome_raised now free found]

theorem departed_queued (free : hub.conflictOf[revision.path]? = none) (clear : hub.raised? now revision = none) :
    (Request.submit revision).departed now hub = [] := by
  obtain ⟨dropped, outcome⟩ := outcome_queued now free clear
  simp only [Request.departed, outcome]

end

section
variable (hub : Hub) (revision : Revision)

private theorem settings_enqueue : (hub.enqueue revision).2.settings = hub.settings := by
  rcases enqueue_cases hub revision with ⟨-, queued⟩ | ⟨oldest, rest, -, -, queued⟩
  all_goals rw [queued]

theorem conflicts_enqueue : (hub.enqueue revision).2.conflicts = hub.conflicts := by
  rcases enqueue_cases hub revision with ⟨-, queued⟩ | ⟨oldest, rest, -, -, queued⟩
  all_goals rw [queued]

theorem recent_enqueue : (hub.enqueue revision).2.recent = hub.recent := by
  rcases enqueue_cases hub revision with ⟨-, queued⟩ | ⟨oldest, rest, -, -, queued⟩
  all_goals rw [queued]

end

theorem settings_apply (now : Timestamp) (hub : Hub) (request : Request) :
    (request.apply now hub).settings = hub.settings := by
  have happened := change now hub request
  generalize after : (request.apply now hub).docket = docket at happened
  replace after := congrArg Docket.settings after
  cases happened with
  | queued => exact after.trans (settings_enqueue _ _)
  | settled => exact after.trans (settings_enqueue _ _)
  | _ => exact after

theorem settings_run (requests : List (Timestamp × Request)) (hub : Hub) :
    (run hub requests).settings = hub.settings := by
  induction requests generalizing hub with
  | nil => rfl
  | cons entry rest ih => exact (ih _).trans (settings_apply entry.1 hub entry.2)

theorem dropped_apply (now : Timestamp) (hub : Hub) (request : Request) :
    hub.counters.dropped ≤ (request.apply now hub).counters.dropped := by
  have grown (base : Hub) (revision : Revision) : base.counters.dropped ≤ (base.enqueue revision).2.counters.dropped := by
    rcases enqueue_cases base revision with ⟨-, queued⟩ | ⟨_, _, -, -, queued⟩
    all_goals simp only [queued, Nat.le_refl, Nat.le_add_right]
  have happened := change now hub request
  generalize after : (request.apply now hub).docket = docket at happened
  replace after := congrArg Docket.dropped after
  cases happened with
  | queued => exact Nat.le_trans (grown (hub.pruneRecent now) _) (Nat.le_of_eq after.symm)
  | settled => exact Nat.le_trans (grown (hub.settle _ _) _) (Nat.le_of_eq after.symm)
  | _ => exact Nat.le_of_eq after.symm

theorem dropped_run (requests : List (Timestamp × Request)) (hub : Hub) :
    hub.counters.dropped ≤ (run hub requests).counters.dropped := by
  induction requests generalizing hub with
  | nil => exact Nat.le_refl _
  | cons entry rest ih => exact Nat.le_trans (dropped_apply entry.1 hub entry.2) (ih _)

/-- What a request adds to the queue is about the document that the request is about. -/
theorem queue_origin {hub : Hub} {now : Timestamp} {request : Request} {revision : Revision}
    (member : revision ∈ (request.apply now hub).queue) :
    revision ∈ hub.queue ∨ request = .submit revision ∨
      ∃ id resolution conflict, request = .resolve id resolution ∧ hub.conflicts[id]? = some conflict ∧
        revision.path = conflict.path := by
  have grown {base : Hub} {new : Revision} (there : revision ∈ (base.enqueue new).2.queue) : revision ∈ base.queue ∨ revision = new := by
    have subset : (base.enqueue new).2.queue ⊆ base.queue ++ [new] := by
      rcases enqueue_cases base new with ⟨-, queued⟩ | ⟨oldest, rest, -, shape, queued⟩
      · rw [queued]
        exact List.Subset.refl _
      · rw [queued, shape]
        exact List.subset_cons_self oldest rest
    rcases List.mem_append.mp (subset there) with old | last
    · exact .inl old
    · exact .inr (List.mem_singleton.mp last)
  have happened := change now hub request
  generalize after : (request.apply now hub).docket = docket at happened
  have queue : (request.apply now hub).queue = docket.queue := congrArg Docket.queue after
  rw [queue] at member
  cases happened with
  | idle => exact .inl member
  | absorbed => exact .inl member
  | raised => exact .inl (List.mem_filter.mp member).1
  | queued =>
    rcases grown member with old | rfl
    · exact .inl old
    · exact .inr (.inl rfl)
  | @settled id resolution conflict known =>
    rcases grown member with old | rfl
    · exact .inl old
    · exact .inr (.inr ⟨id, resolution, conflict, rfl, known, settle_path ..⟩)
  | flushed => cases member

/-! ### The latest of a document -/

def latest? (wanted : Revision → Bool) (revisions : List Revision) : Option Revision :=
  revisions.reverse.find? wanted

section
variable {wanted : Revision → Bool}

@[simp] theorem latest?_nil : latest? wanted [] = none := rfl

theorem latest?_append (first second : List Revision) :
    latest? wanted (first ++ second) = (latest? wanted second).or (latest? wanted first) := by
  simp [latest?, List.find?_append]

theorem latest?_singleton (revision : Revision) :
    latest? wanted [revision] = if wanted revision then some revision else none := by
  simp [latest?, List.find?_singleton]

theorem latest?_cons (revision : Revision) (rest : List Revision) :
    latest? wanted (revision :: rest) =
      (latest? wanted rest).or (if wanted revision then some revision else none) := by
  rw [← latest?_singleton, ← latest?_append, List.singleton_append]

theorem latest?_some {revisions : List Revision} {revision : Revision}
    (found : latest? wanted revisions = some revision) : revision ∈ revisions ∧ wanted revision = true :=
  ⟨List.mem_reverse.mp (List.mem_of_find?_eq_some found), List.find?_some found⟩

theorem latest?_eq_none {revisions : List Revision} :
    latest? wanted revisions = none ↔ ∀ revision ∈ revisions, wanted revision = false := by
  simp [latest?]

/-- A list may lose what is not wanted. -/
theorem latest?_filter {kept : Revision → Bool} {revisions : List Revision}
    (keeps : ∀ revision, wanted revision = true → kept revision = true) :
    latest? wanted (revisions.filter kept) = latest? wanted revisions := by
  rw [latest?, ← List.filter_reverse, List.find?_filter]
  congr 1
  funext revision
  cases held : wanted revision with
  | false => simp
  | true => simp [keeps revision held]

/-- What is latest stays so among fewer. -/
theorem latest?_of_imp {narrow : Revision → Bool} {revisions : List Revision} {revision : Revision}
    (found : latest? wanted revisions = some revision) (held : narrow revision = true)
    (implies : ∀ other, narrow other = true → wanted other = true) :
    latest? narrow revisions = some revision := by
  obtain ⟨-, later, earlier, split, missed⟩ := List.find?_eq_some_iff_append.mp found
  refine List.find?_eq_some_iff_append.mpr ⟨held, later, earlier, split, fun other member => ?_⟩
  cases same : narrow other with
  | false => rfl
  | true => simpa [implies other same] using missed other member

end

/-- Compaction keeps the last revision of each document. -/
theorem mem_compact {queue : List Revision} {revision : Revision} :
    revision ∈ compact queue ↔ latest? (·.path = revision.path) queue = some revision := by
  induction queue with
  | nil => simp [compact]
  | cons first rest ih =>
    rw [compact, latest?_cons]
    simp only [decide_eq_true_eq]
    split
    next followed =>
      rw [ih]
      cases later : latest? (·.path = revision.path) rest with
      | some last => rw [Option.some_or]
      | none =>
        rw [if_neg, Option.none_or]
        intro same
        obtain ⟨other, member, path⟩ := List.any_eq_true.mp followed
        simpa [same, of_decide_eq_true path] using latest?_eq_none.mp later other member
    next alone =>
      rw [List.mem_cons, ih]
      have last : latest? (·.path = first.path) rest = none := by
        simpa [latest?_eq_none] using alone
      by_cases same : first.path = revision.path
      · rw [if_pos same, ← same, last, Option.none_or]
        simp [eq_comm]
      · rw [if_neg same, Option.or_none, or_iff_right]
        rintro rfl
        exact same rfl

/-- After a flush the last revision of a document in the queue is remembered, if there is one. -/
theorem remembered_compact (queue : List Revision) (recent : ExtTreeMap String Revision) (path : String) :
    ((compact queue).foldl (fun recent revision => recent.insert revision.path revision) recent)[path]? =
      (latest? (·.path = path) queue).or recent[path]? := by
  induction queue generalizing recent with
  | nil => simp [compact]
  | cons first rest ih =>
    rw [compact, latest?_cons]
    simp only [decide_eq_true_eq]
    split
    next followed =>
      rw [ih]
      cases later : latest? (·.path = path) rest with
      | some last => rfl
      | none =>
        rw [if_neg, Option.or_none]
        intro same
        obtain ⟨other, member, path⟩ := List.any_eq_true.mp followed
        simpa [same, of_decide_eq_true path] using latest?_eq_none.mp later other member
    next alone =>
      rw [List.foldl_cons, ih, ExtTreeMap.getElem?_insert]
      by_cases same : first.path = path
      · simp [same]
      · simp [same]

/-! ### Competing revisions -/

theorem competing?_eq (hub : Hub) (revision : Revision) :
    hub.competing? revision =
      (hub.queue.reverse.find? (competes hub.settings.conflictWindow revision)).or
        (hub.recent[revision.path]?.filter (competes hub.settings.conflictWindow revision)) := by
  simp only [competing?]
  split
  next queued found => rw [found, Option.some_or]
  next missing => rw [missing, Option.none_or]

/-- What is found competes, and waits in the queue, or is remembered while none in the queue
competes. -/
theorem competing?_cases {hub : Hub} {revision candidate : Revision}
    (found : hub.competing? revision = some candidate) :
    competes hub.settings.conflictWindow revision candidate = true ∧
      (candidate ∈ hub.queue ∨ hub.recent[revision.path]? = some candidate ∧
        ∀ queued ∈ hub.queue, competes hub.settings.conflictWindow revision queued = false) := by
  rw [competing?_eq, Option.or_eq_some_iff] at found
  rcases found with queued | ⟨missing, remembered⟩
  · exact ⟨List.find?_some queued, .inl (List.mem_reverse.mp (List.mem_of_find?_eq_some queued))⟩
  · obtain ⟨remembered, compete⟩ := Option.filter_eq_some_iff.mp remembered
    exact ⟨compete, .inr ⟨remembered, by simpa using missing⟩⟩

theorem competing?_isSome {hub : Hub} {revision candidate : Revision}
    (present : candidate ∈ hub.queue ∨ hub.recent[revision.path]? = some candidate)
    (compete : competes hub.settings.conflictWindow revision candidate = true) :
    (hub.competing? revision).isSome = true := by
  rw [competing?_eq, Option.isSome_or, Bool.or_eq_true]
  rcases present with queued | remembered
  · exact .inl (List.find?_isSome.mpr ⟨candidate, List.mem_reverse.mpr queued, compete⟩)
  · rw [remembered, Option.filter_some, if_pos compete]
    exact .inr rfl

end FreshDocs.Sync.Hub
