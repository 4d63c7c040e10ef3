import FreshDocs.Proofs.HubDetection
import FreshDocs.Proofs.HubIds
import FreshDocs.Proofs.HubLanes

/-! What is the same up to the ids that a hub drew. Two lanes that match stay so under the same
requests, whatever ids each of them is given. -/

namespace FreshDocs.Sync

/-- Ids that two hubs drew at the same point, in pairs. -/
abbrev Names := List (Uuid × Uuid)

def Names.OneToOne (names : Names) : Prop :=
  ∀ one ∈ names, ∀ two ∈ names, one.1 = two.1 ↔ one.2 = two.2

theorem Names.map_zip (names : Names) {one two : Option Uuid} (alike : one.isSome = two.isSome) :
    (names ++ one.toList.zip two.toList).map (·.1) = names.map (·.1) ++ one.toList ∧
      (names ++ one.toList.zip two.toList).map (·.2) = names.map (·.2) ++ two.toList := by
  cases one <;> cases two <;> simp at alike ⊢

/-- A pair of new ids goes with pairs that are there. -/
theorem Names.OneToOne.zip {names : Names} (single : names.OneToOne) {one two : Option Uuid}
    (first : ∀ id, one = some id → id ∉ names.map (·.1)) (second : ∀ id, two = some id → id ∉ names.map (·.2)) :
    (names ++ one.toList.zip two.toList).OneToOne := by
  cases one with
  | none => simpa using single
  | some one =>
    cases two with
    | none => simpa using single
    | some two =>
      have apart (pair : Uuid × Uuid) (old : pair ∈ names) : pair.1 ≠ one ∧ pair.2 ≠ two := by
        constructor
        · rintro rfl
          exact first _ rfl (List.mem_map_of_mem old)
        · rintro rfl
          exact second _ rfl (List.mem_map_of_mem old)
      intro pair member other also
      rcases List.mem_append.mp member with old | new
      · rcases List.mem_append.mp also with older | newer
        · exact single pair old other older
        · obtain rfl : other = (one, two) := by simpa using newer
          simp [apart pair old]
      · obtain rfl : pair = (one, two) := by simpa using new
        rcases List.mem_append.mp also with older | newer
        · simp [(apart other older).1.symm, (apart other older).2.symm]
        · obtain rfl : other = (one, two) := by simpa using newer
          simp

inductive Revision.Matches (names : Names) (revision : Revision) : Revision → Prop where
  | kept : Matches names revision revision
  | renamed {id : Uuid} (named : (revision.id, id) ∈ names) : Matches names revision { revision with id }

inductive Conflict.Side.Matches (names : Names) (side : Side) : Side → Prop where
  | kept : Matches names side side
  | renamed {id : Uuid} (named : (side.revision, id) ∈ names) : Matches names side { side with revision := id }

structure Conflict.Matches (names : Names) (one two : Conflict) : Prop where
  id : (one.id, two.id) ∈ names
  auto : one.auto.Matches names two.auto
  manual : one.manual.Matches names two.manual
  path : two.path = one.path
  scope : two.scope = one.scope
  detectedAt : two.detectedAt = one.detectedAt
  status : two.status = one.status

inductive QueueOutcome.Matches (names : Names) : QueueOutcome → QueueOutcome → Prop where
  | queued (dropped : Option Uuid) : Matches names (.queued dropped) (.queued dropped)
  | conflict {one two : Uuid} (named : (one, two) ∈ names) : Matches names (.conflict one) (.conflict two)
  | conflictUpdated {one two : Uuid} (named : (one, two) ∈ names) :
      Matches names (.conflictUpdated one) (.conflictUpdated two)

inductive Answers (names : Names) : Except Error Revision → Except Error Revision → Prop where
  | settled {one two : Revision} (revision : one.Matches names two) : Answers names (.ok one) (.ok two)
  | unknown {one two : Uuid} (named : (one, two) ∈ names) :
      Answers names (.error (.unknownConflict one)) (.error (.unknownConflict two))

namespace Revision.Matches

variable {names more : Names} {one two : Revision}

theorem mono (same : one.Matches names two) (subset : names ⊆ more) : one.Matches more two := by
  cases same with
  | kept => exact .kept
  | renamed named => exact .renamed (subset named)

theorem fields (same : one.Matches names two) :
    two.path = one.path ∧ two.origin = one.origin ∧ two.timestamp = one.timestamp ∧ two.scope = one.scope := by
  cases same <;> exact ⟨rfl, rfl, rfl, rfl⟩

theorem competes (same : one.Matches names two) (window : Nat) (revision : Revision) :
    Hub.competes window revision two = Hub.competes window revision one := by
  obtain ⟨path, origin, timestamp, -⟩ := same.fields
  rw [Hub.competes, Hub.competes, path, origin, timestamp]

theorem side (same : one.Matches names two) : (Conflict.Side.ofRevision one).Matches names (.ofRevision two) := by
  cases same with
  | kept => exact .kept
  | renamed named => exact .renamed named

end Revision.Matches

section
variable {α β : Type} {related weaker : α → α → Prop} {first second : Option α}

private theorem rel_imp (held : Option.Rel related first second) (implies : ∀ one two, related one two → weaker one two) :
    Option.Rel weaker first second := by
  cases held with
  | some held => exact .some (implies _ _ held)
  | none => exact .none

theorem rel_none_iff (held : Option.Rel related first second) : first = none ↔ second = none := by
  cases held <;> simp

theorem rel_some {two : α} (held : Option.Rel related first (some two)) : ∃ one, first = some one ∧ related one two := by
  cases held with
  | some held => exact ⟨_, rfl, held⟩

private theorem rel_or {third fourth : Option α} (held : Option.Rel related first second) (also : Option.Rel related third fourth) :
    Option.Rel related (first.or third) (second.or fourth) := by
  cases held with
  | some held => exact .some held
  | none => exact also

private theorem rel_filter {wanted needed : α → Bool} (held : Option.Rel related first second)
    (alike : ∀ one two, related one two → needed two = wanted one) :
    Option.Rel related (first.filter wanted) (second.filter needed) := by
  cases held with
  | none => exact .none
  | @some one two held =>
    rw [Option.filter_some, Option.filter_some, alike one two held]
    split
    · exact .some held
    · exact .none

theorem rel_bind {made : β → β → Prop} {make remake : α → Option β} (held : Option.Rel related first second)
    (makes : ∀ one two, related one two → Option.Rel made (make one) (remake two)) :
    Option.Rel made (first.bind make) (second.bind remake) := by
  cases held with
  | some held => exact makes _ _ held
  | none => exact .none

end

section
variable {names more : Names}

theorem Conflict.Side.Matches.mono {one two : Side} (same : one.Matches names two) (subset : names ⊆ more) :
    one.Matches more two := by
  cases same with
  | kept => exact .kept
  | renamed named => exact .renamed (subset named)

theorem Conflict.Side.Matches.content {one two : Side} (same : one.Matches names two) : two.content = one.content := by
  cases same <;> rfl

theorem Conflict.Matches.mono {one two : Conflict} (same : one.Matches names two) (subset : names ⊆ more) :
    one.Matches more two :=
  { same with id := subset same.id, auto := same.auto.mono subset, manual := same.manual.mono subset }

theorem QueueOutcome.Matches.mono {one two : QueueOutcome} (same : one.Matches names two) (subset : names ⊆ more) :
    one.Matches more two := by
  cases same with
  | queued dropped => exact .queued dropped
  | conflict named => exact .conflict (subset named)
  | conflictUpdated named => exact .conflictUpdated (subset named)

theorem QueueOutcome.Matches.drawn? {one two : QueueOutcome} (same : one.Matches names two) :
    one.drawn?.isSome = two.drawn?.isSome := by
  cases same <;> rfl

theorem Answers.drawn? {one two : Except Error Revision} (same : Answers names one two) :
    (settlerId? one).isSome = (settlerId? two).isSome := by
  cases same <;> rfl

theorem Answers.mono {one two : Except Error Revision} (same : Answers names one two) (subset : names ⊆ more) :
    Answers more one two := by
  cases same with
  | settled revision => exact .settled (revision.mono subset)
  | unknown named => exact .unknown (subset named)

theorem Conflict.Matches.absorb {one two : Conflict} (same : one.Matches names two) (revision : Revision) :
    (one.absorb revision).Matches names (two.absorb revision) := by
  unfold Conflict.absorb
  cases revision.origin with
  | auto => exact { same with auto := .kept }
  | manual => exact { same with manual := .kept }

theorem Conflict.Matches.settle {one two : Conflict} (same : one.Matches names two) {id other : Uuid}
    (named : (id, other) ∈ more) (now : Timestamp) (resolution : Resolution) :
    (one.settle id now resolution).Matches more (two.settle other now resolution) := by
  have named : ((one.settle id now resolution).id, other) ∈ more := by
    cases resolution <;> exact named
  have renamed := Revision.Matches.renamed named
  cases resolution <;>
    simpa [Conflict.settle, Revision.make, same.path, same.scope, same.auto.content, same.manual.content] using renamed

theorem between?_matches {one two : Revision} (same : one.Matches names two) {id other : Uuid} (now : Timestamp)
    (revision : Revision) (subset : names ⊆ more) (named : (id, other) ∈ more) :
    Option.Rel (Conflict.Matches more) (Conflict.between? id now one revision) (Conflict.between? other now two revision) := by
  obtain ⟨path, origin, -, scope⟩ := same.fields
  have side := same.side.mono subset
  unfold Conflict.between?
  rw [origin]
  cases one.origin <;> cases revision.origin
  · exact .none
  · exact .some ⟨named, side, .kept, path, scope, rfl, rfl⟩
  · exact .some ⟨named, .kept, side, path, scope, rfl, rfl⟩
  · exact .none

private theorem latest?_matches {wanted : Revision → Bool} {first second : List Revision}
    (each : List.Forall₂ (Revision.Matches names) first second)
    (alike : ∀ one two, Revision.Matches names one two → wanted two = wanted one) :
    Option.Rel (Revision.Matches names) (Hub.latest? wanted first) (Hub.latest? wanted second) := by
  induction each with
  | nil => exact .none
  | @cons one two rest others same _ ih =>
    rw [Hub.latest?_cons, Hub.latest?_cons, alike one two same]
    generalize Hub.latest? wanted rest = later at ih ⊢
    generalize Hub.latest? wanted others = latter at ih ⊢
    cases ih with
    | some later => exact .some later
    | none =>
      cases wanted one with
      | true => exact .some same
      | false => exact .none

end

/-! ### Lanes -/

namespace Lane

/-- Two lanes match from a point in time on; it does not matter what they remember that is too old. -/
structure Matches (names : Names) (window : Nat) (now : Timestamp) (one two : Lane) : Prop where
  queue : List.Forall₂ (Revision.Matches names) one.queue two.queue
  recent : ∀ time, now ≤ time →
    Option.Rel (Revision.Matches names) (one.prune window time).recent (two.prune window time).recent
  conflict : Option.Rel (fun held other => (held.1, other.1) ∈ names ∧ held.2.Matches names other.2)
    one.conflict two.conflict

structure Past (now : Timestamp) (lane : Lane) : Prop where
  queue : ∀ revision ∈ lane.queue, revision.timestamp ≤ now
  recent : ∀ revision, lane.recent = some revision → revision.timestamp ≤ now

variable {names more : Names} {window : Nat} {before now : Timestamp} {one two : Lane}

theorem Past.later (past : Past before one) (order : before ≤ now) : Past now one :=
  ⟨fun revision member => Timestamp.le_trans (past.queue revision member) order,
    fun revision remembered => Timestamp.le_trans (past.recent revision remembered) order⟩

theorem Past.prune (past : Past now one) (time : Timestamp) : Past now (one.prune window time) :=
  ⟨past.queue, fun revision remembered => past.recent revision (Option.filter_eq_some_iff.mp remembered).1⟩

theorem Past.submit {revision : Revision} (past : Past now one) (stamped : revision.timestamp ≤ now) (id : Uuid) :
    Past now (one.submit window id now revision).2 := by
  unfold Lane.submit
  split
  · exact ⟨past.queue, past.recent⟩
  · split
    · exact ⟨by simp, by simp⟩
    · refine ⟨?_, (past.prune now).recent⟩
      intro other member
      rcases List.mem_append.mp member with queued | new
      · exact past.queue other queued
      · rwa [List.mem_singleton.mp new]

theorem Past.resolve (past : Past now one) (id fresh : Uuid) (resolution : Resolution) :
    Past now (one.resolve id fresh now resolution).2 := by
  unfold Lane.resolve
  split
  · refine ⟨?_, past.recent⟩
    intro other member
    rcases List.mem_append.mp member with queued | new
    · exact past.queue other queued
    · rw [List.mem_singleton.mp new, Hub.settle_timestamp]
      exact Int.le_refl _
  · exact past

theorem Past.flush (past : Past now one) : Past now one.flush.2 := by
  refine ⟨by simp [Lane.flush], ?_⟩
  intro revision remembered
  rcases Option.or_eq_some_iff.mp remembered with queued | ⟨-, old⟩
  · exact past.queue revision (List.mem_of_getLast? queued)
  · exact past.recent revision old

private theorem Past.prune_prune (past : Past now one) {time : Timestamp} (order : now ≤ time) :
    (one.prune window now).prune window time = one.prune window time := by
  unfold Lane.prune
  congr 1
  rw [Option.filter_filter]
  cases remembered : one.recent with
  | none => rfl
  | some revision =>
    have nearer : revision.timestamp.gapMillis time ≤ window → revision.timestamp.gapMillis now ≤ window :=
      Nat.le_trans (Timestamp.gapMillis_mono (past.recent revision remembered) order)
    simp only [Option.filter_some]
    by_cases near : revision.timestamp.gapMillis time ≤ window
    · simp [near, nearer near]
    · simp [near]

namespace Matches

theorem later (same : Matches names window before one two) (order : before ≤ now) : Matches names window now one two :=
  { same with recent := fun time after => same.recent time (Timestamp.le_trans order after) }

theorem mono (same : Matches names window now one two) (subset : names ⊆ more) : Matches more window now one two := by
  constructor
  · exact same.queue.imp fun _ _ revision => revision.mono subset
  · exact fun time order => rel_imp (same.recent time order) fun _ _ revision => revision.mono subset
  · exact rel_imp same.conflict fun _ _ held => ⟨subset held.1, held.2.mono subset⟩

theorem prune_left (same : Matches names window now one two) (past : Past now one) :
    Matches names window now (one.prune window now) two :=
  { same with
    recent := by
      intro time order
      rw [past.prune_prune order]
      exact same.recent time order }

theorem competing? (same : Matches names window now one two) (revision : Revision) :
    Option.Rel (Revision.Matches names) ((one.prune window now).competing? window revision)
      ((two.prune window now).competing? window revision) := by
  have alike (one two : Revision) (held : one.Matches names two) := held.competes window revision
  exact rel_or (latest?_matches same.queue alike) (rel_filter (same.recent now (Int.le_refl _)) alike)

/-- A revision that is handed in on both sides gets answers that match. -/
theorem submit (same : Matches names window now one two) (past : Past now one) (also : Past now two)
    (id other : Uuid) (revision : Revision) :
    let drawn := (one.submit window id now revision).1.drawn?.toList.zip (two.submit window other now revision).1.drawn?.toList
    (one.submit window id now revision).1.Matches (names ++ drawn) (two.submit window other now revision).1 ∧
      Matches (names ++ drawn) window now (one.submit window id now revision).2 (two.submit window other now revision).2 := by
  have pending := same.conflict
  have made := rel_bind (same.competing? revision) fun _ _ candidate =>
    between?_matches candidate now revision (List.subset_append_left names [(id, other)])
      (List.mem_append_right names List.mem_cons_self)
  simp only [Lane.submit]
  cases mine : one.conflict with
  | some held =>
    cases yours : two.conflict with
    | none =>
      rw [mine, yours] at pending
      cases pending
    | some further =>
      rw [mine, yours] at pending
      cases pending with
      | some named =>
        simp only [QueueOutcome.drawn?, Option.toList_none, List.zip_nil_left, List.append_nil]
        exact ⟨.conflictUpdated named.1, same.queue, same.recent, .some ⟨named.1, named.2.absorb revision⟩⟩
  | none =>
    cases yours : two.conflict with
    | some further =>
      rw [mine, yours] at pending
      cases pending
    | none =>
      generalize ((one.prune window now).competing? window revision).bind _ = mine_made at made ⊢
      generalize ((two.prune window now).competing? window revision).bind _ = yours_made at made ⊢
      cases made with
      | some conflict =>
        exact ⟨.conflict (List.mem_append_right names List.mem_cons_self), .nil, fun _ _ => .none,
          .some ⟨List.mem_append_right names List.mem_cons_self, conflict⟩⟩
      | none =>
        simp only [QueueOutcome.drawn?, Option.toList_none, List.zip_nil_left, List.append_nil]
        refine ⟨.queued none, List.rel_append same.queue (.cons .kept .nil), ?_, ?_⟩
        · intro time order
          have later := same.recent time order
          rw [← past.prune_prune order, ← also.prune_prune order] at later
          exact later
        · change Option.Rel _ one.conflict two.conflict
          rw [mine, yours]
          exact .none

/-- So do requests that settle the conflict of an id, when ids go together one to one. -/
theorem resolve (same : Matches names window now one two) (single : names.OneToOne) {id renamed : Uuid}
    (named : (id, renamed) ∈ names) (fresh other : Uuid) (resolution : Resolution) :
    let drawn := (settlerId? (one.resolve id fresh now resolution).1).toList.zip
      (settlerId? (two.resolve renamed other now resolution).1).toList
    Answers (names ++ drawn) (one.resolve id fresh now resolution).1 (two.resolve renamed other now resolution).1 ∧
      Matches (names ++ drawn) window now (one.resolve id fresh now resolution).2
        (two.resolve renamed other now resolution).2 := by
  have pending : Option.Rel _ (one.conflict.filter (·.1 = id)) (two.conflict.filter (·.1 = renamed)) :=
    rel_filter same.conflict fun held further matching => decide_eq_decide.mpr (single _ matching.1 _ named).symm
  simp only [Lane.resolve]
  generalize one.conflict.filter _ = mine at pending ⊢
  generalize two.conflict.filter _ = yours at pending ⊢
  cases pending with
  | @some held further matching =>
    have first : (held.2.settle fresh now resolution).id = fresh := by cases resolution <;> rfl
    have second : (further.2.settle other now resolution).id = other := by cases resolution <;> rfl
    simp only [settlerId?, Except.toOption, Option.map_some, Option.toList_some, List.zip_cons_cons, List.zip_nil_left,
      first, second]
    have settled := matching.2.settle (List.mem_append_right names (List.mem_singleton_self (fresh, other))) now resolution
    have wider := same.mono (List.subset_append_left names [(fresh, other)])
    exact ⟨.settled settled, List.rel_append wider.queue (.cons settled .nil), wider.recent, .none⟩
  | none =>
    simp only [settlerId?, Except.toOption, Option.map_none, Option.toList_none, List.zip_nil_left, List.append_nil]
    exact ⟨.unknown named, same⟩

theorem flush (same : Matches names window now one two) :
    Option.Rel (Revision.Matches names) one.flush.1 two.flush.1 ∧ Matches names window now one.flush.2 two.flush.2 := by
  have last (queue : List Revision) : queue.getLast? = Hub.latest? (fun _ => true) queue := by
    rw [Hub.latest?, ← List.head?_reverse]
    cases queue.reverse <;> rfl
  have passed : Option.Rel (Revision.Matches names) one.queue.getLast? two.queue.getLast? := by
    rw [last, last]
    exact latest?_matches same.queue fun _ _ _ => rfl
  refine ⟨passed, .nil, ?_, same.conflict⟩
  intro time order
  have remembered := same.recent time order
  simp only [Lane.flush, Lane.prune] at passed remembered ⊢
  generalize one.queue.getLast? = first at passed ⊢
  generalize two.queue.getLast? = second at passed ⊢
  cases passed with
  | none => exact remembered
  | some revision =>
    rw [Option.some_or, Option.some_or]
    refine rel_filter (.some revision) ?_
    intro old new matching
    obtain ⟨-, -, timestamp, -⟩ := matching.fields
    rw [timestamp]

end Matches
end Lane
end FreshDocs.Sync
