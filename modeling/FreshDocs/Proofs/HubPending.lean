import FreshDocs.Proofs.HubCalls

/-! Which conflicts of a hub are pending, as its feed has it: those that were raised and have not been settled. Every
revision that a hub puts into a conflict is in one that the feed knows. -/

namespace FreshDocs.Sync.Hub
open Std

/-- The feed has it that a conflict was raised for a document. -/
def Raised (hub : Hub) (path : String) (id : Uuid) : Prop :=
  ∃ conflict : Conflict, .conflictDetected conflict ∈ hub.events ∧ conflict.id = id ∧ conflict.path = path

/-- The feed has it that a conflict was settled. -/
def Settled (hub : Hub) (id : Uuid) : Prop :=
  ∃ conflict revision, .conflictResolved conflict revision ∈ hub.events ∧ conflict.id = id

/-- The feed has it that a conflict was raised with a revision, or for the document of the revision and then took it. -/
def Took (hub : Hub) (id : Uuid) (revision : Revision) : Prop :=
  ∃ conflict : Conflict, .conflictDetected conflict ∈ hub.events ∧ conflict.id = id ∧ conflict.path = revision.path ∧
    (conflict.auto = .ofRevision revision ∨ conflict.manual = .ofRevision revision ∨
      .conflictUpdated id revision.id ∈ hub.events)

inductive Dealt (now : Timestamp) (hub : Hub) :
    Request → ExtTreeMap Uuid Conflict → ExtTreeMap String Uuid → List Event → Prop where
  | still {request : Request} (free : ∀ revision id, request.handedOver? now hub ≠ some (revision, some id)) :
      Dealt now hub request hub.conflicts hub.conflictOf []
  | grown {revision : Revision} {id : Uuid} (held : hub.conflictOf[revision.path]? = some id) :
      Dealt now hub (.submit revision) (hub.conflicts.modify id (·.absorb revision)) hub.conflictOf
        [.conflictUpdated id revision.id]
  | raised {revision : Revision} {conflict : Conflict} (path : conflict.path = revision.path)
      (holds : conflict.auto = .ofRevision revision ∨ conflict.manual = .ofRevision revision)
      (drawn : (Request.submit revision).drawn? now hub = some conflict.id) :
      Dealt now hub (.submit revision) (hub.conflicts.insert conflict.id conflict)
        (hub.conflictOf.insert conflict.path conflict.id) [.conflictDetected conflict]
  | settled {id : Uuid} {resolution : Resolution} {conflict : Conflict} (revision : Revision)
      (known : hub.conflicts[id]? = some conflict) :
      Dealt now hub (.resolve id resolution) (hub.conflicts.erase id) (hub.conflictOf.erase conflict.path)
        [.conflictResolved { conflict with status := .resolved resolution } revision]

/-- A conflict is raised between the revision and another one. -/
theorem raised?_holds {hub : Hub} {now : Timestamp} {revision : Revision} {conflict : Conflict}
    (found : hub.raised? now revision = some conflict) :
    conflict.auto = .ofRevision revision ∨ conflict.manual = .ofRevision revision := by
  obtain ⟨candidate, -, made⟩ := Option.bind_eq_some_iff.mp found
  simp only [Conflict.between?] at made
  split at made <;> cases made
  · exact .inr rfl
  · exact .inl rfl

private theorem conflictOf_enqueue (hub : Hub) (revision : Revision) : (hub.enqueue revision).2.conflictOf = hub.conflictOf := by
  rcases enqueue_cases hub revision with ⟨-, queued⟩ | ⟨oldest, rest, -, -, queued⟩
  all_goals rw [queued]

section
variable (now : Timestamp) (hub : Hub)

private theorem dealt_submit (revision : Revision) :
    Dealt now hub (.submit revision) (hub.submit now revision).2.conflicts (hub.submit now revision).2.conflictOf
      ((Request.submit revision).conflictEvents now hub) := by
  simp only [Request.conflictEvents]
  cases held : hub.conflictOf[revision.path]? with
  | some id =>
    have docket := docket_submit_absorbed now held
    have conflicts : (hub.submit now revision).2.conflicts = hub.conflicts.modify id (·.absorb revision) :=
      congrArg Docket.conflicts docket
    have conflictOf : (hub.submit now revision).2.conflictOf = hub.conflictOf := congrArg Docket.conflictOf docket
    rw [conflicts, conflictOf]
    exact .grown held
  | none =>
    cases found : hub.raised? now revision with
    | some conflict =>
      obtain ⟨path, id, -⟩ := raised?_shape found
      have docket := docket_submit_raised now held found
      have conflicts : (hub.submit now revision).2.conflicts = hub.conflicts.insert conflict.id conflict :=
        congrArg Docket.conflicts docket
      have conflictOf : (hub.submit now revision).2.conflictOf = hub.conflictOf.insert conflict.path conflict.id :=
        congrArg Docket.conflictOf docket
      rw [conflicts, conflictOf]
      refine .raised path (raised?_holds found) ?_
      rw [Request.drawn?, outcome_raised now held found, id]
      rfl
    | none =>
      have docket := docket_submit_queued now held found
      have conflicts : (hub.submit now revision).2.conflicts = hub.conflicts :=
        (congrArg Docket.conflicts docket).trans (conflicts_enqueue (hub.pruneRecent now) revision)
      have conflictOf : (hub.submit now revision).2.conflictOf = hub.conflictOf :=
        (congrArg Docket.conflictOf docket).trans (conflictOf_enqueue (hub.pruneRecent now) revision)
      rw [conflicts, conflictOf]
      obtain ⟨dropped, outcome⟩ := outcome_queued now held found
      refine .still fun other id => ?_
      simp [Request.handedOver?, outcome, QueueOutcome.conflict?]

private theorem dealt_resolve (id : Uuid) (resolution : Resolution) :
    Dealt now hub (.resolve id resolution) (hub.resolve now id resolution).2.conflicts
      (hub.resolve now id resolution).2.conflictOf ((Request.resolve id resolution).conflictEvents now hub) := by
  simp only [Request.conflictEvents]
  cases known : hub.conflicts[id]? with
  | none =>
    rw [resolve_unknown now resolution known]
    refine .still fun revision other => ?_
    simp [Request.handedOver?, resolve_unknown now resolution known, Except.toOption]
  | some conflict =>
    have docket := docket_resolve now resolution known
    have conflicts : (hub.resolve now id resolution).2.conflicts = hub.conflicts.erase id :=
      (congrArg Docket.conflicts docket).trans (conflicts_enqueue (hub.settle id conflict.path) _)
    have conflictOf : (hub.resolve now id resolution).2.conflictOf = hub.conflictOf.erase conflict.path :=
      (congrArg Docket.conflictOf docket).trans (conflictOf_enqueue (hub.settle id conflict.path) _)
    rw [conflicts, conflictOf]
    exact .settled _ known

private theorem dealt_call (call : Call) :
    Dealt now (call.prepared hub) (call.request now hub) (call.apply now hub).conflicts (call.apply now hub).conflictOf
      ((call.request now hub).conflictEvents now (call.prepared hub)) := by
  have still {request : Request} {after : Hub} (free : ∀ revision id, request.handedOver? now hub ≠ some (revision, some id))
      (same : after.docket = hub.docket) : Dealt now hub request after.conflicts after.conflictOf [] := by
    have conflicts : after.conflicts = hub.conflicts := congrArg Docket.conflicts same
    have conflictOf : after.conflictOf = hub.conflictOf := congrArg Docket.conflictOf same
    rw [conflicts, conflictOf]
    exact .still free
  cases call with
  | publish => exact dealt_submit now { hub with ids := hub.ids.draw.2 } _
  | resolve id resolution => exact dealt_resolve now hub id resolution
  | flush =>
    have docket := docket_flush hub now
    have conflicts : (hub.flush now).2.conflicts = hub.conflicts := congrArg Docket.conflicts docket
    have conflictOf : (hub.flush now).2.conflictOf = hub.conflictOf := congrArg Docket.conflictOf docket
    change Dealt now hub .flush (hub.flush now).2.conflicts (hub.flush now).2.conflictOf []
    rw [conflicts, conflictOf]
    exact .still (by simp [Request.handedOver?])
  | status data => exact still (by simp [Call.request, Request.handedOver?]) (docket_broadcast hub _)
  | heartbeat => exact still (by simp [Call.request, Request.handedOver?]) (docket_heartbeat hub now)

end

/-! ### The feed grows -/

section
variable {before after : Hub} {news : List Event} (events : after.conflictEvents = before.conflictEvents ++ news)
  {path : String} {id : Uuid}
include events

theorem mem_events_iff {event : Event} (about : event.isConflict = true) :
    event ∈ after.events ↔ event ∈ before.events ∨ event ∈ news := by
  have mem (hub : Hub) : event ∈ hub.events ↔ event ∈ hub.conflictEvents := by simp [mem_conflictEvents, about]
  rw [mem, mem, events, List.mem_append]

theorem raised_iff : after.Raised path id ↔
    before.Raised path id ∨ ∃ conflict : Conflict, .conflictDetected conflict ∈ news ∧ conflict.id = id ∧ conflict.path = path := by
  constructor
  · rintro ⟨conflict, member, same⟩
    rcases (mem_events_iff events rfl).mp member with old | new
    · exact .inl ⟨conflict, old, same⟩
    · exact .inr ⟨conflict, new, same⟩
  · rintro (⟨conflict, old, same⟩ | ⟨conflict, new, same⟩)
    · exact ⟨conflict, (mem_events_iff events rfl).mpr (.inl old), same⟩
    · exact ⟨conflict, (mem_events_iff events rfl).mpr (.inr new), same⟩

private theorem settled_iff : after.Settled id ↔
    before.Settled id ∨ ∃ conflict revision, .conflictResolved conflict revision ∈ news ∧ conflict.id = id := by
  constructor
  · rintro ⟨conflict, revision, member, same⟩
    rcases (mem_events_iff events rfl).mp member with old | new
    · exact .inl ⟨conflict, revision, old, same⟩
    · exact .inr ⟨conflict, revision, new, same⟩
  · rintro (⟨conflict, revision, old, same⟩ | ⟨conflict, revision, new, same⟩)
    · exact ⟨conflict, revision, (mem_events_iff events rfl).mpr (.inl old), same⟩
    · exact ⟨conflict, revision, (mem_events_iff events rfl).mpr (.inr new), same⟩

theorem Took.later {revision : Revision} (took : before.Took id revision) : after.Took id revision := by
  obtain ⟨conflict, raised, named, path, holds⟩ := took
  refine ⟨conflict, (mem_events_iff events rfl).mpr (.inl raised), named, path, ?_⟩
  exact holds.imp_right (.imp_right fun grown => (mem_events_iff events rfl).mpr (.inl grown))

end

/-! ### Conflicts that take revisions -/

/-- The feed knows every conflict that holds a document up, and every one that took a revision. -/
structure Known (handed : List (Revision × Option Uuid)) (hub : Hub) : Prop where
  held : ∀ (path : String) (id : Uuid), hub.conflictOf[path]? = some id → hub.Raised path id
  took : ∀ revision id, (revision, some id) ∈ handed → hub.Took id revision

section
variable {handed : List (Revision × Option Uuid)} {hub : Hub}

private theorem conflict_of_drawn {now : Timestamp} {revision : Revision} {id : Uuid}
    (drawn : (Request.submit revision).drawn? now hub = some id) : (hub.submit now revision).1 = .conflict id := by
  simp only [Request.drawn?] at drawn
  cases answer : (hub.submit now revision).1 with
  | conflict raised =>
    rw [answer] at drawn
    exact congrArg QueueOutcome.conflict (Option.some.inj drawn)
  | queued | conflictUpdated =>
    rw [answer] at drawn
    cases drawn

/-- The revision that settles a conflict goes into none. -/
theorem handedOver?_resolve {now : Timestamp} {revision : Revision} {id other : Uuid} {resolution : Resolution} :
    (Request.resolve id resolution).handedOver? now hub ≠ some (revision, some other) := by
  simp only [Request.handedOver?]
  cases (hub.resolve now id resolution).1 <;> simp [Except.toOption]

theorem Known.prepared (known : hub.Known handed) (call : Call) : (call.prepared hub).Known handed := by
  cases call <;> exact ⟨known.held, known.took⟩

theorem Known.call (known : hub.Known handed) (now : Timestamp) (call : Call) :
    (call.apply now hub).Known (handed ++ ((call.request now hub).handedOver? now (call.prepared hub)).toList) := by
  have events := conflictEvents_call now hub call
  have dealt := dealt_call now hub call
  obtain ⟨held, earlier⟩ := known.prepared call
  have took (revision : Revision) (id : Uuid)
      (new : (call.request now hub).handedOver? now (call.prepared hub) = some (revision, some id) →
        (call.apply now hub).Took id revision)
      (member : (revision, some id) ∈ handed ++ ((call.request now hub).handedOver? now (call.prepared hub)).toList) :
      (call.apply now hub).Took id revision := by
    rcases List.mem_append.mp member with old | last
    · exact (earlier revision id old).later events
    · exact new (Option.mem_toList.mp last)
  generalize call.request now hub = request, call.prepared hub = base, call.apply now hub = after at *
  generalize after.conflicts = conflicts, shape : after.conflictOf = conflictOf, request.conflictEvents now base = news at *
  cases dealt with
  | still free =>
    refine ⟨fun path id there => (raised_iff events).mpr (.inl (held path id (shape ▸ there))), fun revision id member => ?_⟩
    exact took revision id (fun handing => absurd handing (free revision id)) member
  | @grown absorbed conflict there =>
    refine ⟨fun path id there => (raised_iff events).mpr (.inl (held path id (shape ▸ there))), fun revision id member => ?_⟩
    refine took revision id (fun handing => ?_) member
    simp only [Request.handedOver?, outcome_absorbed now there, QueueOutcome.conflict?, Option.some.injEq, Prod.mk.injEq] at handing
    obtain ⟨rfl, rfl⟩ := handing
    obtain ⟨conflict, raised, named, path⟩ := (raised_iff events).mpr (.inl (held _ _ there))
    exact ⟨conflict, raised, named, path, .inr (.inr ((mem_events_iff events rfl).mpr (.inr (List.mem_singleton_self _))))⟩
  | @raised submitted conflict path holds drawn =>
    have detected : .conflictDetected conflict ∈ after.events := (mem_events_iff events rfl).mpr (.inr (List.mem_singleton_self _))
    refine ⟨fun place id there => ?_, fun revision id member => ?_⟩
    · rw [shape, ExtTreeMap.getElem?_insert] at there
      split at there
      next same =>
        cases there
        exact ⟨conflict, detected, rfl, LawfulEqOrd.eq_of_compare same⟩
      next => exact (raised_iff events).mpr (.inl (held place id there))
    · refine took revision id (fun handing => ?_) member
      simp only [Request.handedOver?, conflict_of_drawn drawn, QueueOutcome.conflict?, Option.some.injEq, Prod.mk.injEq] at handing
      obtain ⟨rfl, rfl⟩ := handing
      exact ⟨conflict, detected, rfl, path, holds.imp_right .inl⟩
  | @settled id resolution conflict settler there =>
    refine ⟨fun place other there => ?_, fun revision other member => ?_⟩
    · rw [shape, ExtTreeMap.getElem?_erase] at there
      split at there
      next => cases there
      next => exact (raised_iff events).mpr (.inl (held place other there))
    · exact took revision other (fun handing => absurd handing handedOver?_resolve) member

theorem Known.replay (known : hub.Known handed) (calls : List (Timestamp × Call)) :
    (hub.replay calls).Known (handed ++ hub.handedOver calls) := by
  induction calls generalizing hub handed with
  | nil => simpa [Hub.handedOver, Hub.replay] using known
  | cons entry rest ih =>
    obtain ⟨now, call⟩ := entry
    have later := ih (known.call now call)
    rwa [List.append_assoc] at later

end

/-! ### Conflicts that are pending -/

/-- A conflict is pending if and only if the feed has it as raised and not as settled. -/
structure Tallied (hub : Hub) : Prop where
  pending : ∀ id : Uuid, id ∈ hub.conflicts ↔ (∃ path, hub.Raised path id) ∧ ¬ hub.Settled id
  named : ∀ (id : Uuid) (conflict : Conflict), hub.conflicts[id]? = some conflict → conflict.id = id
  raised : ∀ (path : String) (id : Uuid), hub.Raised path id → hub.Drawn id
  settled : ∀ id : Uuid, hub.Settled id → hub.Drawn id

section
variable {hub : Hub} {count : Nat}

theorem Tallied.prepared (tallied : hub.Tallied) (call : Call) : (call.prepared hub).Tallied := by
  have later {id : Uuid} (drawn : hub.Drawn id) : Drawn { hub with ids := hub.ids.draw.2 } id := by
    obtain ⟨number, before, same⟩ := drawn
    exact ⟨number, Nat.lt_succ_of_lt before, same⟩
  cases call with
  | publish => exact ⟨tallied.pending, tallied.named, fun path id raised => later (tallied.raised path id raised),
      fun id settled => later (tallied.settled id settled)⟩
  | resolve | flush | status | heartbeat => exact tallied

private theorem ids_prepared (hub : Hub) (call : Call) : hub.ids.next ≤ (call.prepared hub).ids.next := by
  cases call with
  | publish => exact Nat.le_succ _
  | resolve | flush | status | heartbeat => exact Nat.le_refl _

private theorem distinct_prepared (distinct : hub.ids.Distinct count) (call : Call) : (call.prepared hub).ids.Distinct count := by
  cases call <;> exact distinct

/-- Nothing changes as long as no conflict is raised or settled. -/
theorem Tallied.quiet {after : Hub} {news : List Event} (tallied : hub.Tallied)
    (events : after.conflictEvents = hub.conflictEvents ++ news)
    (quiet : ∀ event ∈ news, ∃ id revision, event = .conflictUpdated id revision)
    (members : ∀ id, id ∈ after.conflicts ↔ id ∈ hub.conflicts)
    (named : ∀ (id : Uuid) (conflict : Conflict), after.conflicts[id]? = some conflict → conflict.id = id)
    (later : ∀ id, hub.Drawn id → after.Drawn id) : after.Tallied := by
  have raises (path : String) (id : Uuid) : after.Raised path id ↔ hub.Raised path id := by
    rw [raised_iff events, or_iff_left]
    rintro ⟨conflict, new, -⟩
    obtain ⟨_, _, same⟩ := quiet _ new
    cases same
  have settles (id : Uuid) : after.Settled id ↔ hub.Settled id := by
    rw [settled_iff events, or_iff_left]
    rintro ⟨conflict, revision, new, -⟩
    obtain ⟨_, _, same⟩ := quiet _ new
    cases same
  refine ⟨fun id => ?_, named, fun path id new => later id (tallied.raised path id ((raises path id).mp new)),
    fun id new => later id (tallied.settled id ((settles id).mp new))⟩
  simp only [members, raises, settles, tallied.pending]

/-- A conflict with an id that is new to the feed is raised. -/
theorem Tallied.raise {after : Hub} {new : Conflict} (tallied : hub.Tallied)
    (events : after.conflictEvents = hub.conflictEvents ++ [.conflictDetected new])
    (conflicts : after.conflicts = hub.conflicts.insert new.id new) (unknown : ¬ hub.Drawn new.id)
    (known : after.Drawn new.id) (later : ∀ id, hub.Drawn id → after.Drawn id) : after.Tallied := by
  have raises (path : String) (id : Uuid) : after.Raised path id ↔ hub.Raised path id ∨ new.id = id ∧ new.path = path := by
    simp [raised_iff events]
  have settles (id : Uuid) : after.Settled id ↔ hub.Settled id := by simp [settled_iff events]
  refine ⟨fun id => ?_, fun id conflict there => ?_, fun path id there => ?_,
    fun id there => later id (tallied.settled id ((settles id).mp there))⟩
  · rw [conflicts, ExtTreeMap.mem_insert, tallied.pending]
    simp only [raises, settles, Std.compare_eq_iff_eq]
    by_cases same : new.id = id
    · subst same
      have unsettled : ¬ hub.Settled new.id := fun there => unknown (tallied.settled _ there)
      simp [unsettled]
    · simp [same]
  · rw [conflicts, ExtTreeMap.getElem?_insert] at there
    split at there
    next same =>
      cases there
      exact LawfulEqOrd.eq_of_compare same
    next => exact tallied.named id conflict there
  · rcases (raises path id).mp there with old | ⟨rfl, -⟩
    · exact later id (tallied.raised path id old)
    · exact known

/-- A pending conflict is settled. -/
theorem Tallied.settle {after : Hub} {id : Uuid} {old settled : Conflict} {revision : Revision} (tallied : hub.Tallied)
    (there : hub.conflicts[id]? = some old)
    (events : after.conflictEvents = hub.conflictEvents ++ [.conflictResolved settled revision]) (same : settled.id = old.id)
    (conflicts : after.conflicts = hub.conflicts.erase id) (later : ∀ id, hub.Drawn id → after.Drawn id) :
    after.Tallied := by
  have named : settled.id = id := same.trans (tallied.named id old there)
  have raises (path : String) (other : Uuid) : after.Raised path other ↔ hub.Raised path other := by
    simp [raised_iff events]
  have settles (other : Uuid) : after.Settled other ↔ hub.Settled other ∨ id = other := by
    simp [settled_iff events, named]
  have member : id ∈ hub.conflicts := by
    rw [ExtTreeMap.mem_iff_isSome_getElem?, there]
    rfl
  obtain ⟨⟨path, before⟩, -⟩ := (tallied.pending id).mp member
  refine ⟨fun other => ?_, fun other conflict found => ?_,
    fun path other new => later other (tallied.raised path other ((raises path other).mp new)), fun other new => ?_⟩
  · rw [conflicts, ExtTreeMap.mem_erase, tallied.pending]
    simp only [raises, settles]
    by_cases same : id = other
    · simp [same]
    · simp [same]
  · rw [conflicts, ExtTreeMap.getElem?_erase] at found
    split at found
    next => cases found
    next => exact tallied.named other conflict found
  · rcases (settles other).mp new with older | rfl
    · exact later other (tallied.settled other older)
    · exact later id (tallied.raised path id before)

private theorem absorb_id (conflict : Conflict) (revision : Revision) : (conflict.absorb revision).id = conflict.id := by
  unfold Conflict.absorb
  cases revision.origin <;> rfl

/-- As long as no id is drawn twice, a conflict that is raised is new to the feed. -/
theorem Tallied.call (tallied : hub.Tallied) (now : Timestamp) (call : Call)
    (enough : (call.apply now hub).ids.next ≤ count) (distinct : hub.ids.Distinct count) : (call.apply now hub).Tallied := by
  have events := conflictEvents_call now hub call
  have dealt := dealt_call now hub call
  have later (id : Uuid) (drawn : (call.prepared hub).Drawn id) : (call.apply now hub).Drawn id := drawn.apply now _
  have fresh {id : Uuid} (new : (call.request now hub).drawn? now (call.prepared hub) = some id) :
      ¬ (call.prepared hub).Drawn id ∧ (call.apply now hub).Drawn id :=
    drawn?_new new enough (distinct_prepared distinct call)
  have ready := tallied.prepared call
  generalize call.request now hub = request, call.prepared hub = base, call.apply now hub = after at *
  generalize shape : after.conflicts = conflicts, after.conflictOf = conflictOf, request.conflictEvents now base = news at *
  have named := ready.named
  cases dealt with
  | still free => exact ready.quiet events (by simp) (by simp [shape]) (shape ▸ named) later
  | @grown revision absorbing held =>
    refine ready.quiet events (by simp) (by simp [shape, ExtTreeMap.mem_modify]) (fun id conflict there => ?_) later
    rw [shape, ExtTreeMap.getElem?_modify] at there
    split at there
    next same =>
      obtain ⟨old, held, rfl⟩ := Option.map_eq_some_iff.mp there
      rw [absorb_id]
      exact named id old (LawfulEqOrd.eq_of_compare same ▸ held)
    next => exact named id conflict there
  | raised path holds drawn =>
    obtain ⟨unknown, known⟩ := fresh drawn
    exact ready.raise events shape unknown known later
  | settled settler there => exact ready.settle there events rfl shape later

private theorem ids_replay (hub : Hub) (calls : List (Timestamp × Call)) : hub.ids.next ≤ (hub.replay calls).ids.next := by
  induction calls generalizing hub with
  | nil => exact Nat.le_refl _
  | cons entry rest ih =>
    obtain ⟨now, call⟩ := entry
    have first : (call.prepared hub).ids.next ≤ (call.apply now hub).ids.next := by
      rcases ids_apply now (call.prepared hub) (call.request now hub) with same | drawn
      · exact Nat.le_of_eq (congrArg Uuid.Supply.next same).symm
      · exact Nat.le_trans (Nat.le_succ _) (Nat.le_of_eq (congrArg Uuid.Supply.next drawn).symm)
    exact Nat.le_trans (Nat.le_trans (ids_prepared hub call) first) (ih (call.apply now hub))

theorem Tallied.replay (tallied : hub.Tallied) (calls : List (Timestamp × Call))
    (distinct : hub.ids.Distinct (hub.replay calls).ids.next) : (hub.replay calls).Tallied := by
  induction calls generalizing hub with
  | nil => exact tallied
  | cons entry rest ih =>
    obtain ⟨now, call⟩ := entry
    have enough := ids_replay (call.apply now hub) rest
    have kept := distinct_apply now (call.request now hub) (distinct_prepared distinct call)
    exact ih (tallied.call now call enough distinct) kept

end

/-! ### A hub with nothing left to do -/

/-- Nothing that was handed over is on its way any more. What entered the queue has left it by one of four ways, each
revision once, of which clients and watchers were told; the rest is in conflicts. -/
structure Cleared (handed : List (Revision × Option Uuid)) (hub : Hub) : Prop where
  queue : hub.queue = []
  fated : ∃ (register : Register) (sent : List Message), register.waiting = [] ∧ register.Sound (handed.filterMap queued?) ∧
    Agrees register.fated sent hub.notices ∧ ∀ client ∈ hub.clients, client.Holds sent
  took : ∀ revision id, (revision, some id) ∈ handed → hub.Took id revision

private theorem flush_cleared {handed : List (Revision × Option Uuid)} {hub : Hub} (books : hub.Books handed)
    (known : hub.Known handed) (now : Timestamp) : (hub.flush now).2.Cleared handed := by
  have empty : (hub.flush now).2.queue = [] := congrArg Docket.queue (docket_flush hub now)
  have flushed := books.call now .flush
  have told := known.call now .flush
  simp only [Call.request, Request.handedOver?, Option.toList_none, List.append_nil] at flushed told
  obtain ⟨compacted, sent, register, kept⟩ := flushed
  refine ⟨empty, ⟨register, sent, ?_, kept.sound, kept.agrees, kept.holds⟩, told.took⟩
  exact List.map_eq_nil_iff.mp (kept.queue.trans empty)

def attend (hub : Hub) (transports : List Transport) : Hub :=
  transports.foldl (fun hub transport => (hub.register transport).2) hub

structure New (hub : Hub) : Prop where
  kept : Kept [] 0 [] hub {}
  conflicts : hub.conflicts = ∅
  conflictOf : hub.conflictOf = ∅
  events : hub.conflictEvents = []

theorem New.register {hub : Hub} (new : hub.New) (transport : Transport) : (hub.register transport).2.New := by
  have notices : (hub.register transport).2.notices = hub.notices := by
    simp [notices, Hub.register, emit, Event.isNotice]
  obtain ⟨kept, conflicts, conflictOf, events⟩ := new
  refine ⟨⟨kept.queue, kept.sound, notices ▸ kept.agrees, fun client member => ?_, kept.dropped, kept.broadcasts,
    kept.compactions⟩, conflicts, conflictOf, ?_⟩
  · rcases Array.mem_push.mp member with old | rfl
    · exact kept.holds client old
    · exact ⟨[], rfl, fun _ => rfl⟩
  · rw [conflictEvents_eq, notices, ← conflictEvents_eq, events]

theorem attend_new (settings : Settings) (transports : List Transport) :
    New (attend { settings } transports) := by
  have opened : New ({ settings } : Hub) := ⟨by simpa using Kept.opened settings { space := 1 } #[], rfl, rfl, rfl⟩
  exact List.foldlRecOn transports _ opened fun hub new transport _ => new.register transport

section
variable {hub : Hub} (new : hub.New)
include new

theorem New.books : hub.Books [] :=
  ⟨0, [], {}, new.kept⟩

theorem New.known : hub.Known [] := by
  refine ⟨fun path id held => ?_, fun revision id member => absurd member List.not_mem_nil⟩
  rw [new.conflictOf] at held
  simp at held

theorem New.tallied : hub.Tallied := by
  have raised (path : String) (id : Uuid) : ¬ hub.Raised path id := by
    rintro ⟨conflict, member, -⟩
    have listed := mem_conflictEvents.mpr ⟨member, rfl⟩
    rw [new.events] at listed
    cases listed
  have settled (id : Uuid) : ¬ hub.Settled id := by
    rintro ⟨conflict, revision, member, -⟩
    have listed := mem_conflictEvents.mpr ⟨member, rfl⟩
    rw [new.events] at listed
    cases listed
  refine ⟨fun id => ?_, fun id conflict there => ?_, fun path id there => absurd there (raised path id),
    fun id there => absurd there (settled id)⟩
  · simp [new.conflicts, raised]
  · rw [new.conflicts] at there
    simp at there

/-- Whatever a hub was asked for, a flush clears it. -/
theorem New.cleared (calls : List (Timestamp × Call)) (now : Timestamp) :
    (hub.replay (calls ++ [(now, .flush)])).Cleared (hub.handedOver (calls ++ [(now, .flush)])) := by
  have handed : hub.handedOver (calls ++ [(now, .flush)]) = hub.handedOver calls := by
    rw [handedOver_append]
    exact List.append_nil _
  rw [replay_append, handed]
  exact flush_cleared (new.books.replay calls) (new.known.replay calls) now

theorem New.pending (calls : List (Timestamp × Call)) (distinct : hub.ids.Distinct (hub.replay calls).ids.next)
    (id : Uuid) : id ∈ (hub.replay calls).conflicts ↔
      (∃ path, (hub.replay calls).Raised path id) ∧ ¬(hub.replay calls).Settled id :=
  (new.tallied.replay calls distinct).pending id

end

end FreshDocs.Sync.Hub
