import FreshDocs.Proofs.HubConflicts
import FreshDocs.Proofs.HubLedger
import FreshDocs.Proofs.HubMessages

/-! A hub as it looks from one document. All documents share one queue, one memory and one supply of
ids, but as long as the queue does not overflow each of them is served as if it had a lane of its
own. Of what others do a lane notices at most that it is pruned. -/

namespace FreshDocs.Sync

/-- What a hub keeps of one document. -/
structure Lane where
  queue : List Revision := []
  recent : Option Revision := none
  conflict : Option (Uuid × Conflict) := none

namespace Lane

def prune (window : Nat) (now : Timestamp) (lane : Lane) : Lane :=
  { lane with recent := lane.recent.filter fun revision => decide (revision.timestamp.gapMillis now ≤ window) }

def competing? (window : Nat) (lane : Lane) (revision : Revision) : Option Revision :=
  (Hub.latest? (Hub.competes window revision) lane.queue).or (lane.recent.filter (Hub.competes window revision))

def submit (window : Nat) (id : Uuid) (now : Timestamp) (revision : Revision) (lane : Lane) : QueueOutcome × Lane :=
  match lane.conflict with
  | some (held, conflict) => (.conflictUpdated held, { lane with conflict := some (held, conflict.absorb revision) })
  | none =>
    match ((lane.prune window now).competing? window revision).bind (Conflict.between? id now · revision) with
    | some conflict => (.conflict id, { conflict := some (id, conflict) })
    | none => (.queued none, { lane.prune window now with queue := lane.queue ++ [revision] })

def resolve (id fresh : Uuid) (now : Timestamp) (resolution : Resolution) (lane : Lane) : Except Error Revision × Lane :=
  match lane.conflict.filter (·.1 = id) with
  | some (_, conflict) =>
    let revision := conflict.settle fresh now resolution
    (.ok revision, { lane with queue := lane.queue ++ [revision], conflict := none })
  | none => (.error (.unknownConflict id), lane)

def flush (lane : Lane) : Option Revision × Lane :=
  (lane.queue.getLast?, { lane with queue := [], recent := lane.queue.getLast?.or lane.recent })

end Lane

namespace Hub
open Std

def lane (hub : Hub) (path : String) : Lane :=
  { queue := hub.queue.filter (·.path = path)
    recent := hub.recent[path]?
    conflict := hub.conflictOf[path]?.bind fun id => hub.conflicts[id]?.map (id, ·) }

section
variable {hub after : Hub} {path : String} {revision : Revision} {now : Timestamp}

theorem lane_congr (same : after.docket = hub.docket) (path : String) : after.lane path = hub.lane path := by
  simp only [docket, Docket.mk.injEq] at same
  obtain ⟨-, queue, conflicts, conflictOf, recent, -⟩ := same
  rw [lane, queue, conflicts, conflictOf, recent, lane]

private theorem lane_prune (hub : Hub) (now : Timestamp) (path : String) :
    (hub.pruneRecent now).lane path = (hub.lane path).prune hub.settings.conflictWindow now := by
  simp only [lane, Lane.prune, pruneRecent, ExtTreeMap.getElem?_filter']

theorem Consistent.lane_conflict (valid : Consistent hub) {id : Uuid} {conflict : Conflict} :
    (hub.lane path).conflict = some (id, conflict) ↔ hub.conflicts[id]? = some conflict ∧ conflict.path = path := by
  simp only [lane, Option.bind_eq_some_iff, Option.map_eq_some_iff, Prod.mk.injEq]
  constructor
  · intro found
    obtain ⟨other, held, _, there, rfl, rfl⟩ := found
    obtain ⟨_, known, placed⟩ := (valid.inverse path other).mp held
    cases known.symm.trans there
    exact ⟨there, placed⟩
  · intro found
    obtain ⟨there, placed⟩ := found
    exact ⟨id, (valid.inverse path id).mpr ⟨conflict, there, placed⟩, conflict, there, rfl, rfl⟩

theorem Consistent.lane_free (valid : Consistent hub) : (hub.lane path).conflict = none ↔ hub.conflictOf[path]? = none := by
  cases held : hub.conflictOf[path]? with
  | none => simp [lane, held]
  | some id =>
    obtain ⟨conflict, there, -⟩ := (valid.inverse path id).mp held
    simp [lane, held, there]

theorem raised?_lane (hub : Hub) (now : Timestamp) (revision : Revision) :
    hub.raised? now revision =
      (((hub.lane revision.path).prune hub.settings.conflictWindow now).competing? hub.settings.conflictWindow revision).bind
        (Conflict.between? hub.ids.draw.1 now · revision) := by
  have same : (hub.pruneRecent now).competing? revision =
      ((hub.lane revision.path).prune hub.settings.conflictWindow now).competing? hub.settings.conflictWindow revision := by
    rw [competing?_eq, Lane.competing?, ← lane_prune, lane, latest?_filter]
    · rfl
    · intro other competing
      simp only [competes, Bool.and_eq_true, decide_eq_true_eq] at competing
      exact decide_eq_true competing.1.1
  rw [raised?, same]
  rfl

theorem conflictFor?_lane (hub : Hub) (path : String) : hub.conflictFor? path = (hub.lane path).conflict.map (·.2) := by
  simp only [conflictFor?, lane]
  cases hub.conflictOf[path]? with
  | none => rfl
  | some id =>
    simp only [Option.bind_some, Option.map_map, Function.comp_def, Option.map_id']
    rfl

theorem enqueue_of_kept (kept : (hub.enqueue revision).2.counters.dropped = hub.counters.dropped) :
    hub.enqueue revision = (none, { hub with queue := hub.queue ++ [revision] }) := by
  rcases enqueue_cases hub revision with ⟨-, queued⟩ | ⟨oldest, rest, -, -, queued⟩
  · exact queued
  · rw [queued] at kept
    dsimp only at kept
    omega

/-- Where a queue drops nothing, neither does one that is no longer. -/
theorem dropped_enqueue {other : Hub} (less : other.queue.length ≤ hub.queue.length) (limit : other.queueLimit = hub.queueLimit)
    (kept : (hub.enqueue revision).2.counters.dropped = hub.counters.dropped) (new : Revision) :
    (other.enqueue new).2.counters.dropped = other.counters.dropped := by
  rcases enqueue_cases other new with ⟨-, queued⟩ | ⟨_, _, full, -, -⟩
  · rw [queued]
  · rcases enqueue_cases hub revision with ⟨room, -⟩ | ⟨_, _, -, -, queued⟩
    · omega
    · rw [queued] at kept
      dsimp only at kept
      omega

/-! ### Requests about the document -/

theorem submit_lane (valid : Consistent hub)
    (kept : (hub.submit now revision).2.counters.dropped = hub.counters.dropped) :
    (hub.submit now revision).1 =
        ((hub.lane revision.path).submit hub.settings.conflictWindow hub.ids.draw.1 now revision).1 ∧
      (hub.submit now revision).2.lane revision.path =
        ((hub.lane revision.path).submit hub.settings.conflictWindow hub.ids.draw.1 now revision).2 := by
  cases held : hub.conflictOf[revision.path]? with
  | some id =>
    obtain ⟨conflict, there, placed⟩ := (valid.inverse revision.path id).mp held
    have pending := valid.lane_conflict.mpr ⟨there, placed⟩
    rw [outcome_absorbed now held, lane_congr (docket_submit_absorbed now held), Lane.submit, pending]
    refine ⟨rfl, ?_⟩
    simp [lane, held, there]
  | none =>
    have free := valid.lane_free.mpr held
    cases found : hub.raised? now revision with
    | some conflict =>
      obtain ⟨placed, named, -⟩ := raised?_shape found
      have same := docket_submit_raised now held found
      rw [outcome_raised now held found, lane_congr same]
      rw [raised?_lane] at found
      rw [Lane.submit, free]
      simp only [found, true_and]
      simp [lane, raise, placed, named]
    | none =>
      have docket := docket_submit_queued now held found
      have queued := enqueue_of_kept ((congrArg Docket.dropped docket).symm.trans kept)
      rw [queued] at docket
      have outcome : (hub.submit now revision).1 = .queued none := by
        simp only [raised?] at found
        simp only [submit, held, found, queued]
      rw [outcome, lane_congr docket]
      rw [raised?_lane] at found
      rw [Lane.submit, free]
      simp only [found, true_and]
      rw [← lane_prune]
      simp [lane, pruneRecent]

theorem flush_lane (hub : Hub) (now : Timestamp) (path : String) :
    (hub.flush now).2.lane path = (hub.lane path).flush.2 ∧
      (compact hub.queue).filter (·.path = path) = (hub.lane path).flush.1.toList := by
  have last (queue : List Revision) :
      latest? (·.path = path) queue = (queue.filter (·.path = path)).getLast? := by
    rw [latest?, ← List.head?_filter, List.filter_reverse, List.head?_reverse]
  constructor
  · rw [lane_congr (docket_flush hub now)]
    simp only [lane, Lane.flush, remembered_compact, last, List.filter_nil]
  · simp only [lane, Lane.flush]
    generalize hub.queue = queue
    induction queue with
    | nil => rfl
    | cons first rest ih =>
      rw [compact, List.filter_cons]
      by_cases here : first.path = path
      · subst here
        rw [if_pos (decide_eq_true rfl)]
        cases others : rest.filter (·.path = first.path) with
        | nil =>
          have alone : rest.any (·.path = first.path) = false := by
            simpa [List.filter_eq_nil_iff] using others
          rw [others] at ih
          rw [alone, if_neg Bool.false_ne_true, List.filter_cons, if_pos (decide_eq_true rfl), ih]
          rfl
        | cons second later =>
          have followed : rest.any (·.path = first.path) = true := by
            have member : second ∈ rest.filter (·.path = first.path) := by
              rw [others]
              exact List.mem_cons_self
            exact List.any_eq_true.mpr ⟨second, List.mem_filter.mp member⟩
          rw [followed, if_pos rfl, ih, others, List.getLast?_cons_cons]
      · have away : decide (first.path = path) = false := decide_eq_false here
        rw [away, if_neg Bool.false_ne_true, ← ih]
        split
        · rfl
        · rw [List.filter_cons, away, if_neg Bool.false_ne_true]

/-- The conflicts of an id are those of one document. -/
theorem resolve_lane (valid : Consistent hub) {id : Uuid} (resolution : Resolution)
    (about : ∀ conflict, hub.conflicts[id]? = some conflict → conflict.path = path)
    (kept : (hub.resolve now id resolution).2.counters.dropped = hub.counters.dropped) :
    (hub.resolve now id resolution).1 = ((hub.lane path).resolve id hub.ids.draw.1 now resolution).1 ∧
      (hub.resolve now id resolution).2.lane path = ((hub.lane path).resolve id hub.ids.draw.1 now resolution).2 := by
  cases known : hub.conflicts[id]? with
  | none =>
    have missing : (hub.lane path).conflict.filter (·.1 = id) = none := by
      rw [Option.filter_eq_none_iff]
      intro ⟨held, conflict⟩ pending same
      have there := (valid.lane_conflict.mp pending).1
      have alike : held = id := of_decide_eq_true same
      rw [alike, known] at there
      cases there
    rw [resolve_unknown now resolution known, Lane.resolve, missing]
    exact ⟨rfl, rfl⟩
  | some conflict =>
    obtain rfl := about conflict known
    have pending := valid.lane_conflict.mpr ⟨known, rfl⟩
    have docket := docket_resolve now resolution known
    rw [enqueue_of_kept ((congrArg Docket.dropped docket).symm.trans kept)] at docket
    rw [resolve_known now resolution known, lane_congr docket, Lane.resolve, pending, Option.filter_some,
      if_pos (decide_eq_true rfl)]
    refine ⟨rfl, ?_⟩
    simp [lane, settle, settle_path]

/-! ### Requests about other documents -/

theorem submit_elsewhere (valid : Consistent hub) (issued : Issued hub) {count : Nat}
    (enough : (hub.submit now revision).2.ids.next ≤ count) (distinct : hub.ids.Distinct count)
    (other : revision.path ≠ path) (kept : (hub.submit now revision).2.counters.dropped = hub.counters.dropped) :
    (hub.submit now revision).2.lane path = hub.lane path ∨
      (hub.submit now revision).2.lane path = (hub.lane path).prune hub.settings.conflictWindow now := by
  cases held : hub.conflictOf[revision.path]? with
  | some id =>
    left
    obtain ⟨conflict, there, placed⟩ := (valid.inverse revision.path id).mp held
    rw [lane_congr (docket_submit_absorbed now held)]
    cases own : hub.conflictOf[path]? with
    | none => simp [lane, own]
    | some mine =>
      have apart : id ≠ mine := by
        intro same
        obtain ⟨mine_conflict, known, place⟩ := (valid.inverse path mine).mp own
        rw [← same, there] at known
        cases known
        exact other (placed.symm.trans place)
      simp [lane, own, ExtTreeMap.getElem?_modify, apart]
  | none =>
    right
    rw [← lane_prune]
    cases found : hub.raised? now revision with
    | some conflict =>
      obtain ⟨placed, named, -⟩ := raised?_shape found
      have elsewhere : conflict.path ≠ path := placed ▸ other
      have same := docket_submit_raised now held found
      rw [ids_congr same] at enough
      have fresh := issued.fresh enough distinct
      rw [lane_congr same]
      have queue : (hub.queue.filter (·.path ≠ conflict.path)).filter (·.path = path) = hub.queue.filter (·.path = path) := by
        rw [List.filter_filter]
        congr 1
        funext queued
        by_cases same : queued.path = path
        · simp [same, Ne.symm elsewhere]
        · simp [same]
      have index : (hub.conflictOf.insert conflict.path conflict.id)[path]? = hub.conflictOf[path]? := by
        rw [ExtTreeMap.getElem?_insert, if_neg (by simpa using elsewhere)]
      have memory (recent : ExtTreeMap String Revision) : (recent.erase conflict.path)[path]? = recent[path]? := by
        rw [ExtTreeMap.getElem?_erase, if_neg (by simpa using elsewhere)]
      simp only [lane, raise, pruneRecent, queue, index, memory, Lane.mk.injEq, true_and]
      cases own : hub.conflictOf[path]? with
      | none => rfl
      | some mine =>
        have apart : conflict.id ≠ mine := by
          intro same
          obtain ⟨_, known, -⟩ := (valid.inverse path mine).mp own
          rw [← same, named, fresh] at known
          cases known
        rw [Option.bind_some, Option.bind_some, ExtTreeMap.getElem?_insert, if_neg (by simpa using apart)]
    | none =>
      have docket := docket_submit_queued now held found
      rw [enqueue_of_kept ((congrArg Docket.dropped docket).symm.trans kept)] at docket
      rw [lane_congr docket]
      simp [lane, pruneRecent, other]

theorem resolve_elsewhere (valid : Consistent hub) {id : Uuid} (resolution : Resolution)
    (other : ∀ conflict, hub.conflicts[id]? = some conflict → conflict.path ≠ path)
    (kept : (hub.resolve now id resolution).2.counters.dropped = hub.counters.dropped) :
    (hub.resolve now id resolution).2.lane path = hub.lane path := by
  cases known : hub.conflicts[id]? with
  | none => rw [resolve_unknown now resolution known]
  | some conflict =>
    have elsewhere := other conflict known
    have docket := docket_resolve now resolution known
    rw [enqueue_of_kept ((congrArg Docket.dropped docket).symm.trans kept)] at docket
    rw [lane_congr docket]
    have index : (hub.conflictOf.erase conflict.path)[path]? = hub.conflictOf[path]? := by
      rw [ExtTreeMap.getElem?_erase, if_neg (by simpa using elsewhere)]
    have queue : (hub.queue ++ [conflict.settle hub.ids.draw.1 now resolution]).filter (·.path = path) =
        hub.queue.filter (·.path = path) := by
      rw [List.filter_append, List.filter_singleton, settle_path, decide_eq_false elsewhere]
      exact List.append_nil _
    simp only [lane, settle, queue, index, Lane.mk.injEq, true_and]
    cases own : hub.conflictOf[path]? with
    | none => rfl
    | some mine =>
      have apart : id ≠ mine := by
        intro same
        obtain ⟨_, there, place⟩ := (valid.inverse path mine).mp own
        rw [← same, known] at there
        cases there
        exact elsewhere place
      rw [Option.bind_some, Option.bind_some, ExtTreeMap.getElem?_erase, if_neg (by simpa using apart)]

end
end Hub
end FreshDocs.Sync
