import FreshDocs.Proofs.HubConflicts
import FreshDocs.Proofs.HubLedger
import Mathlib.Data.List.Induction

/-! Which content a pending conflict holds. Content that comes in while it is pending takes the side
of its origin, so there the latest wins. But a conflict is made of the latest opposing content within
the window, and opposing content outside the window that is newer still is lost from the queue. -/

namespace FreshDocs.Sync

namespace Conflict

def side (conflict : Conflict) : Origin → Side
  | .auto => conflict.auto
  | .manual => conflict.manual

theorem side_absorb (conflict : Conflict) (revision : Revision) (origin : Origin) :
    (conflict.absorb revision).side origin =
      if revision.origin = origin then .ofRevision revision else conflict.side origin := by
  cases made : revision.origin <;> cases origin <;> simp [absorb, side, made]

/-- Either side of a conflict comes from the revision of its origin. -/
theorem between?_side {id : Uuid} {now : Timestamp} {first second : Revision} {conflict : Conflict}
    (made : between? id now first second = some conflict) :
    conflict.side second.origin = .ofRevision second ∧ conflict.side second.origin.other = .ofRevision first := by
  unfold between? at made
  cases one : first.origin <;> cases two : second.origin
  all_goals simp only [one, two, reduceCtorEq] at made
  all_goals cases made; exact ⟨rfl, rfl⟩

end Conflict

namespace Hub
open Std

def isFrom (path : String) (origin : Origin) (revision : Revision) : Bool :=
  revision.path = path && revision.origin = origin

theorem isFrom_iff {path : String} {origin : Origin} {revision : Revision} :
    isFrom path origin revision = true ↔ revision.path = path ∧ revision.origin = origin := by
  simp [isFrom]

theorem isFrom_elsewhere {path : String} (origin : Origin) {revision : Revision} (other : revision.path ≠ path) :
    isFrom path origin revision = false := by
  simp [isFrom, other]

/-- Every pending conflict holds the latest content of either side among some revisions. -/
def Current (hub : Hub) (revisions : List Revision) : Prop :=
  ∀ (id : Uuid) (conflict : Conflict), hub.conflicts[id]? = some conflict → ∀ origin,
    (latest? (isFrom conflict.path origin) revisions).map .ofRevision = some (conflict.side origin)

/-- The latest opposing revision among some is within the window of a revision. -/
def Near (hub : Hub) (revisions : List Revision) (revision : Revision) : Prop :=
  ∃ latest, latest? (isFrom revision.path revision.origin.other) revisions = some latest ∧
    latest.timestamp.gapMillis revision.timestamp ≤ hub.settings.conflictWindow

/-- What is remembered of a document is its last revision among those that left the queue. -/
def Recalls (hub : Hub) (gone : List Revision) : Prop :=
  ∀ (path : String) (revision : Revision), hub.recent[path]? = some revision →
    latest? (·.path = path) gone = some revision

/-! ### What left the queue -/

section
variable {hub : Hub} {gone : List Revision} {now : Timestamp} {revision : Revision}

/-- Nothing in the queue belongs to a document with a pending conflict. -/
theorem Consistent.latest?_queue (valid : Consistent hub) {id : Uuid} {conflict : Conflict}
    (present : hub.conflicts[id]? = some conflict) (origin : Origin) :
    latest? (isFrom conflict.path origin) hub.queue = none := by
  refine latest?_eq_none.mpr fun queued member => isFrom_elsewhere origin ?_
  intro same
  have held := (valid.inverse conflict.path id).mpr ⟨conflict, present, rfl⟩
  rw [← same, valid.queue queued member] at held
  cases held

private theorem current_append_queue (valid : Consistent hub) : Current hub (gone ++ hub.queue) ↔ Current hub gone := by
  have same {id : Uuid} {conflict : Conflict} (present : hub.conflicts[id]? = some conflict) (origin : Origin) :
      latest? (isFrom conflict.path origin) (gone ++ hub.queue) = latest? (isFrom conflict.path origin) gone := by
    rw [latest?_append, valid.latest?_queue present, Option.none_or]
  constructor
  · intro current id conflict present origin
    exact same present origin ▸ current id conflict present origin
  · intro current id conflict present origin
    exact (same present origin).symm ▸ current id conflict present origin

theorem Current.congr {after : Hub} (current : Current hub gone) (same : after.docket = hub.docket) :
    Current after gone := by
  rw [Current, show after.conflicts = hub.conflicts from congrArg Docket.conflicts same]
  exact current

theorem Recalls.congr {after : Hub} (recalls : Recalls hub gone) (same : after.docket = hub.docket) :
    Recalls after gone := by
  rw [Recalls, show after.recent = hub.recent from congrArg Docket.recent same]
  exact recalls

theorem Recalls.prune (recalls : Recalls hub gone) (now : Timestamp) : Recalls (hub.pruneRecent now) gone := by
  intro path revision remembered
  simp only [pruneRecent, ExtTreeMap.getElem?_filter'] at remembered
  exact recalls path revision (Option.filter_eq_some_iff.mp remembered).1

theorem Recalls.elsewhere (recalls : Recalls hub gone) {path : String} {remembered : Revision} {more : List Revision}
    (held : hub.recent[path]? = some remembered) (other : ∀ revision ∈ more, revision.path ≠ path) :
    latest? (·.path = path) (gone ++ more) = some remembered := by
  rw [latest?_append, recalls path remembered held, latest?_eq_none.mpr, Option.none_or]
  intro revision member
  exact decide_eq_false (other revision member)

/-- Nothing is remembered of a document with a pending conflict. -/
theorem Recalls.absorb (recalls : Recalls hub gone) (valid : Consistent hub) {id : Uuid}
    (held : hub.conflictOf[revision.path]? = some id) : Recalls hub (gone ++ [revision]) := by
  intro path remembered recent
  refine recalls.elsewhere recent fun other member => ?_
  rw [List.mem_singleton.mp member]
  rintro rfl
  rw [valid.recent _ remembered recent] at held
  cases held

/-- A conflict makes its document forgotten, and takes nothing else from the queue. -/
theorem Recalls.raise (recalls : Recalls hub gone) {conflict : Conflict} (path : conflict.path = revision.path) :
    Recalls (hub.raise conflict) (gone ++ (hub.queue.filter (·.path = revision.path) ++ [revision])) := by
  intro document remembered recent
  simp only [Hub.raise, ExtTreeMap.getElem?_erase] at recent
  split at recent
  next => cases recent
  next different =>
    have elsewhere : revision.path ≠ document := by
      rw [← path]
      exact fun same => different (Std.compare_eq_iff_eq.mpr same)
    refine recalls.elsewhere recent fun other member => ?_
    rcases List.mem_append.mp member with queued | new
    · have same : other.path = revision.path := by simpa using (List.mem_filter.mp queued).2
      exact same ▸ elsewhere
    · exact List.mem_singleton.mp new ▸ elsewhere

/-- Of each document in the queue, the last revision is remembered. -/
theorem Recalls.flush (recalls : Recalls hub gone) :
    Recalls { hub with
      recent := (compact hub.queue).foldl (fun recent revision => recent.insert revision.path revision) hub.recent }
      (gone ++ hub.queue) := by
  intro path remembered recent
  simp only [remembered_compact] at recent
  rw [latest?_append]
  rcases Option.or_eq_some_iff.mp recent with queued | ⟨missing, old⟩
  · rw [queued, Option.some_or]
  · rw [missing, Option.none_or]
    exact recalls path remembered old

/-- Content for a pending conflict replaces the side of its origin. -/
theorem Current.absorb (current : Current hub gone) (valid : Consistent hub) {id : Uuid}
    (held : hub.conflictOf[revision.path]? = some id) :
    Current { hub with conflicts := hub.conflicts.modify id (·.absorb revision) } (gone ++ [revision]) := by
  intro other conflict present origin
  simp only [ExtTreeMap.getElem?_modify] at present
  rw [latest?_append, latest?_singleton]
  split at present
  next same =>
    obtain ⟨old, there, rfl⟩ := Option.map_eq_some_iff.mp present
    obtain ⟨_, known, path⟩ := (valid.inverse revision.path id).mp held
    cases known.symm.trans there
    rw [(absorb_path old revision).1, Conflict.side_absorb]
    by_cases made : revision.origin = origin
    · rw [if_pos made, if_pos (isFrom_iff.mpr ⟨path.symm, made⟩)]
      rfl
    · have old_side := current id old there origin
      rwa [if_neg made, if_neg (by simp [isFrom, made]), Option.none_or]
  next different =>
    have elsewhere : revision.path ≠ conflict.path := by
      intro same
      have placed := (valid.inverse conflict.path other).mpr ⟨conflict, present, rfl⟩
      rw [← same, held] at placed
      cases placed
      exact different ReflOrd.compare_self
    rw [if_neg (by simp [isFrom_elsewhere origin elsewhere]), Option.none_or]
    exact current other conflict present origin

/-- A revision that makes a conflict leaves the latest opposing one what it was. -/
theorem latest?_opposing (queue : List Revision) :
    latest? (isFrom revision.path revision.origin.other)
        (gone ++ (queue.filter (·.path = revision.path) ++ [revision])) =
      latest? (isFrom revision.path revision.origin.other) (gone ++ queue) := by
  have moved : latest? (isFrom revision.path revision.origin.other) (queue.filter (·.path = revision.path)) =
      latest? (isFrom revision.path revision.origin.other) queue :=
    latest?_filter fun other wanted => by simpa using (isFrom_iff.mp wanted).1
  have own : isFrom revision.path revision.origin.other revision = false := by
    simp [isFrom, revision.origin.ne_other]
  simp only [latest?_append, latest?_singleton, own, moved, Bool.false_eq_true, if_false, Option.none_or]

/-- A conflict of the latest revisions of both sides holds the latest content. -/
theorem Consistent.raise_current (valid : Consistent hub) {conflict : Conflict} (current : Current hub gone)
    (free : hub.conflictOf[revision.path]? = none) (path : conflict.path = revision.path)
    (own : conflict.side revision.origin = .ofRevision revision)
    (opposing : (latest? (isFrom revision.path revision.origin.other) (gone ++ hub.queue)).map .ofRevision =
      some (conflict.side revision.origin.other)) :
    Current (hub.raise conflict) (gone ++ (hub.queue.filter (·.path = revision.path) ++ [revision])) := by
  intro id held present origin
  simp only [Hub.raise, ExtTreeMap.getElem?_insert] at present
  split at present
  next =>
    cases present
    rw [path]
    rcases Origin.eq_or_other origin revision.origin with rfl | rfl
    · rw [latest?_append, latest?_append, latest?_singleton, if_pos (isFrom_iff.mpr ⟨rfl, rfl⟩), own]
      rfl
    · rw [latest?_opposing]
      exact opposing
  next =>
    have elsewhere : revision.path ≠ held.path := by
      intro same
      have placed := (valid.inverse held.path id).mpr ⟨held, present, rfl⟩
      rw [← same, free] at placed
      cases placed
    rw [latest?_append, latest?_eq_none.mpr, Option.none_or]
    · exact current id held present origin
    · intro other member
      rcases List.mem_append.mp member with queued | new
      · have same : other.path = revision.path := by simpa using (List.mem_filter.mp queued).2
        exact isFrom_elsewhere origin (same ▸ elsewhere)
      · exact isFrom_elsewhere origin (List.mem_singleton.mp new ▸ elsewhere)

/-- A hub that recalls what left its queue finds the latest opposing revision, if that is near. -/
theorem Recalls.competing? (recalls : Recalls hub gone) {candidate : Revision}
    (found : hub.competing? revision = some candidate) (near : Near hub (gone ++ hub.queue) revision) :
    latest? (isFrom revision.path revision.origin.other) (gone ++ hub.queue) = some candidate := by
  obtain ⟨latest, opposing, gap⟩ := near
  rw [opposing]
  rw [latest?_append] at opposing
  have implies (other : Revision) (competing : competes hub.settings.conflictWindow revision other = true) :
      isFrom revision.path revision.origin.other other = true := by
    simp only [competes, Bool.and_eq_true, decide_eq_true_eq] at competing
    exact isFrom_iff.mpr competing.1
  rw [competing?_eq] at found
  cases queued : latest? (isFrom revision.path revision.origin.other) hub.queue with
  | some last =>
    rw [queued, Option.some_or] at opposing
    cases opposing
    have competing : competes hub.settings.conflictWindow revision latest = true := by
      obtain ⟨path, origin⟩ := isFrom_iff.mp (latest?_some queued).2
      simp [competes, path, origin, gap]
    have first := latest?_of_imp queued competing implies
    rw [latest?] at first
    rwa [first, Option.some_or] at found
  | none =>
    -- No queued revision competes, so what was found is remembered: it left the queue last.
    have missing : hub.queue.reverse.find? (competes hub.settings.conflictWindow revision) = none := by
      refine List.find?_eq_none.mpr fun other member competing => ?_
      have unwanted := latest?_eq_none.mp queued other (List.mem_reverse.mp member)
      rw [implies other competing] at unwanted
      cases unwanted
    rw [missing, Option.none_or] at found
    obtain ⟨remembered, competing⟩ := Option.filter_eq_some_iff.mp found
    have last := latest?_of_imp (recalls _ candidate remembered) (implies candidate competing)
      fun other wanted => by simpa using (isFrom_iff.mp wanted).1
    rw [queued, Option.none_or, last] at opposing
    exact opposing.symm

end

/-! ### Requests -/

/-- A request keeps every conflict current, provided that the conflict it makes, if any, is made near
the latest opposing revision. -/
theorem apply_current {hub : Hub} {gone : List Revision} {now : Timestamp} {request : Request}
    (valid : Consistent hub) (recalls : Recalls hub gone) (current : Current hub gone)
    (near : ∀ revision, request = .submit revision → (∃ id, (hub.submit now revision).1 = .conflict id) →
      Near hub (gone ++ hub.queue) revision) :
    Recalls (request.apply now hub) (gone ++ request.departed now hub) ∧
      Current (request.apply now hub) (gone ++ request.departed now hub) := by
  have happened := change now hub request
  generalize after : (request.apply now hub).docket = docket at happened
  cases happened with
  | idle quiet still =>
    rw [still, List.append_nil]
    exact ⟨recalls.congr after, current.congr after⟩
  | @absorbed revision id held =>
    rw [departed_absorbed held]
    refine ⟨Recalls.congr ?_ after, (current.absorb valid held).congr after⟩
    exact recalls.absorb valid held
  | @raised revision conflict free found =>
    rw [departed_raised free found]
    obtain ⟨path, -, -⟩ := raised?_shape found
    have raises : ∃ id, (hub.submit now revision).1 = .conflict id :=
      (outcome_conflict_iff free).mpr (by rw [found]; rfl)
    have latest := near revision rfl raises
    obtain ⟨candidate, competing, made⟩ := Option.bind_eq_some_iff.mp found
    obtain ⟨own, opposing⟩ := Conflict.between?_side made
    have pruned := valid.prune now
    have drawn : Consistent { hub.pruneRecent now with ids := hub.ids.draw.2 } :=
      ⟨pruned.inverse, pruned.queue, pruned.recent, pruned.pending, pruned.depth, pruned.tally⟩
    refine ⟨Recalls.congr ?_ after, Current.congr ?_ after⟩
    · exact (recalls.prune now).raise path
    · refine drawn.raise_current current free path own ?_
      rw [opposing]
      exact congrArg (Option.map _) ((recalls.prune now).competing? competing latest)
  | @queued revision free clear =>
    rw [departed_queued free clear, List.append_nil]
    refine ⟨Recalls.congr ?_ after, Current.congr ?_ after⟩
    · rw [Recalls, recent_enqueue]
      exact recalls.prune now
    · rw [Current, conflicts_enqueue]
      exact current
  | @settled id resolution conflict known =>
    rw [Request.departed, List.append_nil]
    refine ⟨Recalls.congr ?_ after, Current.congr ?_ after⟩
    · rw [Recalls, recent_enqueue]
      exact recalls
    · rw [Current, conflicts_enqueue]
      intro other held present
      simp only [Hub.settle, ExtTreeMap.getElem?_erase] at present
      split at present
      next => cases present
      next => exact current other held present
  | flushed =>
    rw [Request.departed]
    refine ⟨Recalls.congr ?_ after, Current.congr ?_ after⟩
    · exact recalls.flush
    · exact (current_append_queue valid).mpr current

/-- A conflict that is current was made near the latest opposing revision. -/
theorem near_of_current {hub : Hub} {gone : List Revision} {now : Timestamp} {revision : Revision}
    (raises : ∃ id, (hub.submit now revision).1 = .conflict id)
    (current : Current (hub.submit now revision).2 (gone ++ (Request.submit revision).departed now hub)) :
    Near hub (gone ++ hub.queue) revision := by
  cases free : hub.conflictOf[revision.path]? with
  | some id =>
    obtain ⟨other, outcome⟩ := raises
    rw [outcome_absorbed now free] at outcome
    cases outcome
  | none =>
    obtain ⟨conflict, found⟩ := Option.isSome_iff_exists.mp ((outcome_conflict_iff free).mp raises)
    obtain ⟨path, -, -⟩ := raised?_shape found
    have present : (hub.submit now revision).2.conflicts[conflict.id]? = some conflict := by
      have conflicts := congrArg Docket.conflicts (docket_submit_raised now free found)
      simp only [docket] at conflicts
      rw [conflicts]
      exact ExtTreeMap.getElem?_insert_self
    obtain ⟨candidate, competing, made⟩ := Option.bind_eq_some_iff.mp found
    have held := current conflict.id conflict present revision.origin.other
    rw [departed_raised free found, path, latest?_opposing, (Conflict.between?_side made).2] at held
    obtain ⟨latest, opposing, same⟩ := Option.map_eq_some_iff.mp held
    refine ⟨latest, opposing, ?_⟩
    have gap := (competing?_cases competing).1
    simp only [competes, Bool.and_eq_true, decide_eq_true_eq] at gap
    rw [show latest.timestamp = candidate.timestamp from congrArg Conflict.Side.timestamp same]
    exact gap.2

theorem run_current {settings : Settings} {ids : Uuid.Supply} {requests : List (Timestamp × Request)}
    (distinct : ids.Distinct (run { settings, ids } requests).ids.next)
    (near : ∀ earlier now revision, earlier ++ [(now, .submit revision)] <+: requests →
      (∃ id, ((run { settings, ids } earlier).submit now revision).1 = .conflict id) →
      Near (run { settings, ids } earlier) (accepted { settings, ids } earlier) revision) :
    Recalls (run { settings, ids } requests) (departed { settings, ids } requests) ∧
      Current (run { settings, ids } requests) (departed { settings, ids } requests) := by
  induction requests using List.reverseRecOn with
  | nil =>
    constructor
    · intro path revision remembered
      simp [run] at remembered
    · intro id conflict present
      simp [run] at present
  | append_singleton earlier entry ih =>
    obtain ⟨now, request⟩ := entry
    have fewer : ids.Distinct (run { settings, ids } earlier).ids.next := by
      refine distinct.mono ?_
      rw [run_append]
      exact (ids_run _ _).1
    obtain ⟨recalls, current⟩ := ih fewer fun before time revision started =>
      near before time revision (started.trans (List.prefix_append _ _))
    rw [run_append, departed_append, departed, departed, List.append_nil]
    have valid := (run_keeps (.initial settings ids) (.initial settings ids) earlier fewer).1
    refine apply_current valid recalls current fun revision same => ?_
    subst same
    exact near earlier now revision (List.prefix_refl _)

/-- The pending conflicts of a run hold the latest content of either side at all times if and only if
each of them was made when the latest opposing content was within the window. Content that
joins a pending conflict never goes wrong. -/
theorem run_current_iff_near (settings : Settings) (ids : Uuid.Supply) (requests : List (Timestamp × Request))
    (distinct : ids.Distinct (run { settings, ids } requests).ids.next) :
    (∀ earlier, earlier <+: requests →
        Current (run { settings, ids } earlier) (accepted { settings, ids } earlier)) ↔
      ∀ earlier now revision, earlier ++ [(now, .submit revision)] <+: requests →
        (∃ id, ((run { settings, ids } earlier).submit now revision).1 = .conflict id) →
        Near (run { settings, ids } earlier) (accepted { settings, ids } earlier) revision := by
  have valid {earlier : List (Timestamp × Request)} (started : earlier <+: requests) :
      ids.Distinct (run { settings, ids } earlier).ids.next ∧ Consistent (run { settings, ids } earlier) := by
    obtain ⟨rest, rfl⟩ := started
    have fewer : ids.Distinct (run { settings, ids } earlier).ids.next := by
      refine distinct.mono ?_
      rw [run_append]
      exact (ids_run _ _).1
    exact ⟨fewer, (run_keeps (.initial settings ids) (.initial settings ids) earlier fewer).1⟩
  constructor
  · intro current earlier now revision started raises
    have after := (current_append_queue (valid started).2).mp (current _ started)
    rw [run_append, departed_append, departed, departed, List.append_nil] at after
    exact near_of_current raises after
  · intro near earlier started
    refine (current_append_queue (valid started).2).mpr ?_
    exact (run_current (valid started).1 fun before now revision more =>
      near before now revision (more.trans started)).2

/-- A conflict is made near the latest content of both sides, and one more revision joins it. -/
theorem joined_current_iff_near :
    let generated := Revision.make (.ofNat 1) (.ofNanos 0) .file "guide.md" "generated" .auto
    let written := Revision.make (.ofNat 2) (.ofNanos 1) .file "guide.md" "by hand" .manual
    let again := Revision.make (.ofNat 3) (.ofNanos 2) .file "guide.md" "generated again" .auto
    let ids : Uuid.Supply := { space := 1 }
    let requests : List (Timestamp × Request) :=
      [(.ofNanos 0, .submit generated), (.ofNanos 1, .submit written), (.ofNanos 2, .submit again)]
    ids.Distinct (run { settings := {}, ids } requests).ids.next ∧
      ((∀ earlier, earlier <+: requests →
          Current (run { settings := {}, ids } earlier) (accepted { settings := {}, ids } earlier)) ↔
        ∀ earlier now revision, earlier ++ [(now, .submit revision)] <+: requests →
          (∃ id, ((run { settings := {}, ids } earlier).submit now revision).1 = .conflict id) →
          Near (run { settings := {}, ids } earlier) (accepted { settings := {}, ids } earlier) revision) := by
  intro generated written again ids requests
  have drawn := (ids_run requests { settings := {}, ids }).2
  have distinct : ids.Distinct (run { settings := {}, ids } requests).ids.next := by
    apply Uuid.Supply.distinct_of_le
    exact Nat.le_trans (Nat.add_le_add_left drawn _) (by decide)
  exact ⟨distinct, run_current_iff_near {} ids requests distinct⟩

/-- Generated content ten seconds ahead of its time is queued after older content. An edit half a
second after the older one makes a conflict with that, and the newer one is gone. -/
theorem overtaken_not_current :
    let first := Revision.make (.ofNat 1) (.ofNanos 0) .file "docs/a.md" "first" .auto
    let second := Revision.make (.ofNat 2) (.ofNanos 10000000000) .file "docs/a.md" "second" .auto
    let edited := Revision.make (.ofNat 3) (.ofNanos 500000000) .file "docs/a.md" "edited" .manual
    let ids : Uuid.Supply := { space := 1 }
    let requests : List (Timestamp × Request) :=
      [(.ofNanos 0, .submit first), (.ofNanos 0, .submit second), (.ofNanos 0, .submit edited)]
    ¬Current (run { settings := {}, ids } requests) (accepted { settings := {}, ids } requests) := by
  intro first second edited ids requests current
  have held : (run { settings := {}, ids } requests).conflicts[ids.nth 1]?.map (fun conflict =>
      (conflict.path, conflict.auto.revision)) = some ("docs/a.md", first.id) := by
    decide +kernel
  have latest : (latest? (isFrom "docs/a.md" .auto) (accepted { settings := {}, ids } requests)).map (·.id) =
      some second.id := by
    decide +kernel
  obtain ⟨conflict, present, same⟩ := Option.map_eq_some_iff.mp held
  obtain ⟨path, side⟩ := Prod.mk.inj same
  have expected := current _ conflict present .auto
  obtain ⟨revision, found, auto⟩ := Option.map_eq_some_iff.mp expected
  rw [path] at found
  rw [found] at latest
  -- Both are the id of the generated side: one by the run, the other by the latest content.
  have id : second.id = first.id := by
    rw [← Option.some.inj latest, ← side]
    exact congrArg Conflict.Side.revision auto
  exact absurd id (by decide)

end Hub
end FreshDocs.Sync
