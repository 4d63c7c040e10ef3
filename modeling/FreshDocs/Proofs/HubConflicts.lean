import FreshDocs.Proofs.HubSteps
import FreshDocs.Proofs.SortedMaps
import Mathlib.Algebra.Ring.Nat

/-! The books of a hub agree with each other at all times. A document has at most one pending
conflict, and while it has one, nothing of it waits in the queue or is remembered as passed on:
no request can publish a document behind the back of its conflict. -/

namespace FreshDocs.Uuid.Supply

def nth (supply : Supply) (number : Nat) : Uuid :=
  { supply with next := number }.draw.1

def Distinct (supply : Supply) (count : Nat) : Prop :=
  ∀ first < count, ∀ second < count, supply.nth first = supply.nth second → first = second

theorem Distinct.mono {supply : Supply} {count fewer : Nat} (distinct : supply.Distinct count)
    (less : fewer ≤ count) : supply.Distinct fewer :=
  fun first one second two => distinct first (Nat.lt_of_lt_of_le one less) second (Nat.lt_of_lt_of_le two less)

/-- Numbers that fit into 128 bits name different ids. -/
theorem distinct_of_le (supply : Supply) {count : Nat}
    (fits : supply.space * UInt64.size + count ≤ 2 ^ 128) : supply.Distinct count := by
  intro first one second two same
  have bits := congrArg (fun id : Uuid => id.bits.toNat) same
  simp only [nth, draw, ofNat, BitVec.toNat_ofNat] at bits
  rw [Nat.mod_eq_of_lt (by omega), Nat.mod_eq_of_lt (by omega)] at bits
  omega

end FreshDocs.Uuid.Supply

namespace FreshDocs.Sync.Hub
open Std

structure Consistent (hub : Hub) : Prop where
  inverse : ∀ (path : String) (id : Uuid), hub.conflictOf[path]? = some id ↔
    ∃ conflict : Conflict, hub.conflicts[id]? = some conflict ∧ conflict.path = path
  queue : ∀ revision ∈ hub.queue, hub.conflictOf[revision.path]? = none
  recent : ∀ (path : String) (revision : Revision), hub.recent[path]? = some revision → hub.conflictOf[path]? = none
  pending : ∀ (id : Uuid) (conflict : Conflict), hub.conflicts[id]? = some conflict → conflict.status = .pending
  depth : hub.queue.length ≤ max hub.settings.capacity 1
  tally : hub.counters.conflictsRaised = hub.counters.conflictsResolved + hub.conflicts.size

/-- Every pending conflict has an id that was drawn before. -/
def Issued (hub : Hub) : Prop :=
  ∀ id ∈ hub.conflicts, ∃ number < hub.ids.next, hub.ids.nth number = id

theorem Consistent.congr {before after : Hub} (valid : Consistent before)
    (same : after.docket = before.docket) : Consistent after := by
  simp only [docket, Docket.mk.injEq] at same
  obtain ⟨settings, queue, conflicts, conflictOf, recent, -, -, -, raised, resolved⟩ := same
  constructor
  · rw [conflicts, conflictOf]; exact valid.inverse
  · rw [queue, conflictOf]; exact valid.queue
  · rw [recent, conflictOf]; exact valid.recent
  · rw [conflicts]; exact valid.pending
  · rw [queue, settings]; exact valid.depth
  · rw [raised, resolved, conflicts]; exact valid.tally

theorem Issued.congr {before after : Hub} (issued : Issued before)
    (same : after.docket = before.docket) : Issued after := by
  simp only [docket, Docket.mk.injEq] at same
  obtain ⟨-, -, conflicts, -, -, ids, -, -, -, -⟩ := same
  rw [Issued, conflicts, ids]
  exact issued

theorem Consistent.initial (settings : Settings) (ids : Uuid.Supply) :
    Consistent { settings, ids } := by
  constructor
  all_goals simp

theorem Issued.initial (settings : Settings) (ids : Uuid.Supply) : Issued { settings, ids } := by
  intro id member
  exact False.elim (ExtTreeMap.not_mem_empty member)

theorem Consistent.indexes {hub : Hub} (valid : Consistent hub) :
    SortedMap.Indexes hub.conflictOf hub.conflicts (·.path) :=
  valid.inverse

/-! ### Conflicts -/

private theorem competing?_path {hub : Hub} {revision candidate : Revision}
    (found : hub.competing? revision = some candidate) : candidate.path = revision.path := by
  have agrees : competes hub.settings.conflictWindow revision candidate = true := by
    simp only [competing?] at found
    split at found
    next queued first =>
      cases found
      exact List.find?_some first
    next => exact (Option.filter_eq_some_iff.mp found).2
  simp only [competes, Bool.and_eq_true, decide_eq_true_eq] at agrees
  exact agrees.1.1

/-- A conflict is raised for the document of the revision, under the next id. -/
theorem raised?_shape {hub : Hub} {now : Timestamp} {revision : Revision} {conflict : Conflict}
    (found : hub.raised? now revision = some conflict) :
    conflict.path = revision.path ∧ conflict.id = hub.ids.draw.1 ∧ conflict.status = .pending := by
  obtain ⟨candidate, competing, made⟩ := Option.bind_eq_some_iff.mp found
  have path := competing?_path competing
  simp only [Conflict.between?] at made
  split at made <;> cases made
  all_goals exact ⟨path, rfl, rfl⟩

theorem absorb_path (conflict : Conflict) (revision : Revision) :
    (conflict.absorb revision).path = conflict.path ∧ (conflict.absorb revision).status = conflict.status := by
  unfold Conflict.absorb
  cases revision.origin <;> exact ⟨rfl, rfl⟩

theorem Consistent.absorb {hub : Hub} (valid : Consistent hub) (id : Uuid) (revision : Revision) :
    Consistent { hub with conflicts := hub.conflicts.modify id (·.absorb revision) } := by
  have found : ∀ (other : Uuid) (conflict : Conflict),
      (hub.conflicts.modify id (·.absorb revision))[other]? = some conflict →
      ∃ old, hub.conflicts[other]? = some old ∧ old.path = conflict.path ∧ old.status = conflict.status := by
    intro other conflict present
    rw [ExtTreeMap.getElem?_modify] at present
    split at present
    next same =>
      obtain ⟨old, there, rfl⟩ := Option.map_eq_some_iff.mp present
      exact ⟨old, LawfulEqOrd.eq_of_compare same ▸ there, (absorb_path old revision).1.symm,
        (absorb_path old revision).2.symm⟩
    next => exact ⟨conflict, present, rfl, rfl⟩
  refine ⟨?_, valid.queue, valid.recent, ?_, valid.depth, ?_⟩
  · intro path other
    rw [valid.inverse]
    constructor
    · rintro ⟨old, there, rfl⟩
      by_cases same : id = other
      · subst other
        refine ⟨old.absorb revision, ?_, (absorb_path old revision).1⟩
        simp [there]
      · exact ⟨old, by simp [ExtTreeMap.getElem?_modify, same, there], rfl⟩
    · rintro ⟨conflict, present, rfl⟩
      obtain ⟨old, there, path, -⟩ := found other conflict present
      exact ⟨old, there, path⟩
  · intro other conflict present
    obtain ⟨old, there, -, status⟩ := found other conflict present
    exact status.symm.trans (valid.pending other old there)
  · simpa only [ExtTreeMap.size_modify] using valid.tally

theorem Consistent.prune {hub : Hub} (valid : Consistent hub) (now : Timestamp) :
    Consistent (hub.pruneRecent now) := by
  refine ⟨valid.inverse, valid.queue, ?_, valid.pending, valid.depth, valid.tally⟩
  intro path revision remembered
  simp only [pruneRecent, ExtTreeMap.getElem?_filter'] at remembered
  exact valid.recent path revision (Option.filter_eq_some_iff.mp remembered).1

/-- Raising a conflict clears its document from the queue and from memory. The id must be free,
or the conflict would take the place of another. -/
theorem Consistent.raise {hub : Hub} {conflict : Conflict} (valid : Consistent hub)
    (free : hub.conflictOf[conflict.path]? = none) (fresh : hub.conflicts[conflict.id]? = none)
    (pending : conflict.status = .pending) : Consistent (hub.raise conflict) := by
  refine ⟨valid.indexes.insert free fresh, ?_, ?_, ?_, ?_, ?_⟩
  · intro revision member
    obtain ⟨queued, elsewhere⟩ := List.mem_filter.mp member
    have elsewhere : revision.path ≠ conflict.path := by simpa using elsewhere
    simpa [Hub.raise, ExtTreeMap.getElem?_insert, elsewhere.symm] using valid.queue revision queued
  · intro path revision remembered
    simp only [Hub.raise, ExtTreeMap.getElem?_erase, Std.compare_eq_iff_eq] at remembered
    split at remembered
    next => cases remembered
    next elsewhere =>
      simpa [Hub.raise, ExtTreeMap.getElem?_insert, elsewhere] using valid.recent path revision remembered
  · intro id held present
    simp only [Hub.raise, ExtTreeMap.getElem?_insert] at present
    split at present
    · cases present
      exact pending
    · exact valid.pending id held present
  · exact Nat.le_trans (List.length_filter_le _ _) valid.depth
  · -- A conflict under an id that is taken would be counted as raised without adding to the map.
    have unused : hub.conflicts.contains conflict.id = false := by
      rw [ExtTreeMap.contains_eq_isSome_getElem?, fresh]
      rfl
    have before := valid.tally
    simp only [Hub.raise, ExtTreeMap.size_insert, unused]
    simp only [Bool.false_eq_true, if_false]
    omega

theorem Consistent.enqueue {hub : Hub} {revision : Revision} (valid : Consistent hub)
    (free : hub.conflictOf[revision.path]? = none) : Consistent (hub.enqueue revision).2 := by
  have all : ∀ queued ∈ hub.queue ++ [revision], hub.conflictOf[queued.path]? = none := by
    intro queued member
    rcases List.mem_append.mp member with old | new
    · exact valid.queue queued old
    · rw [List.mem_singleton.mp new]
      exact free
  have depth : hub.queue.length ≤ hub.queueLimit := valid.depth
  rcases enqueue_cases hub revision with ⟨room, queued⟩ | ⟨oldest, rest, -, shape, queued⟩
  · rw [queued]
    refine ⟨valid.inverse, all, valid.recent, valid.pending, ?_, valid.tally⟩
    rw [List.length_append, List.length_singleton]
    exact room
  · rw [queued]
    rw [shape] at all
    refine ⟨valid.inverse, fun later member => all later (List.mem_cons_of_mem _ member),
      valid.recent, valid.pending, ?_, valid.tally⟩
    have size : hub.queue.length = rest.length := by simpa using congrArg List.length shape
    exact size ▸ depth

/-- Settling a conflict frees its document and no other. -/
theorem Consistent.settle {hub : Hub} {id : Uuid} {conflict : Conflict} (valid : Consistent hub)
    (known : hub.conflicts[id]? = some conflict) : Consistent (hub.settle id conflict.path) := by
  refine ⟨valid.indexes.erase known, ?_, ?_, ?_, valid.depth, ?_⟩
  · intro revision member
    simp only [Hub.settle, ExtTreeMap.getElem?_erase]
    rw [valid.queue revision member]
    exact ite_self none
  · intro path revision remembered
    simp only [Hub.settle, ExtTreeMap.getElem?_erase]
    rw [valid.recent path revision remembered]
    exact ite_self none
  · intro other held present
    simp only [Hub.settle, ExtTreeMap.getElem?_erase] at present
    split at present
    · cases present
    · exact valid.pending other held present
  · have counted : hub.conflicts.contains id = true := by
      rw [ExtTreeMap.contains_eq_isSome_getElem?, known]
      rfl
    have some_left : hub.conflicts.size ≠ 0 := by
      intro empty
      rw [ExtTreeMap.eq_empty_iff_size_eq_zero.mpr empty] at known
      cases known
    have before := valid.tally
    simp only [Hub.settle, ExtTreeMap.size_erase, counted, if_true]
    omega

/-- What is remembered after some revisions were passed on is one of them, or is older. -/
theorem remembered_cases (batch : List Revision) {recent : ExtTreeMap String Revision} {path : String}
    {revision : Revision}
    (remembered : (batch.foldl (fun recent revision => recent.insert revision.path revision) recent)[path]? =
      some revision) :
    recent[path]? = some revision ∨ revision ∈ batch ∧ revision.path = path := by
  induction batch generalizing recent with
  | nil => exact .inl remembered
  | cons first rest ih =>
    rcases ih remembered with older | ⟨member, same⟩
    · rw [ExtTreeMap.getElem?_insert] at older
      split at older
      next same =>
        cases older
        exact .inr ⟨List.mem_cons_self, LawfulEqOrd.eq_of_compare same⟩
      next => exact .inl older
    · exact .inr ⟨List.mem_cons_of_mem _ member, same⟩

theorem Consistent.flush {hub : Hub} (valid : Consistent hub) (now : Timestamp) :
    Consistent (hub.flush now).2 := by
  refine Consistent.congr ?_ (docket_flush hub now)
  refine ⟨valid.inverse, ?_, ?_, valid.pending, Nat.zero_le _, valid.tally⟩
  · intro revision member
    cases member
  · intro path revision remembered
    rcases remembered_cases (compact hub.queue) remembered with older | ⟨member, rfl⟩
    · exact valid.recent path revision older
    · exact valid.queue revision (compact_subset member)

/-! ### Ids -/

/-- The next id has not been drawn before, as long as ids do not repeat. -/
theorem Issued.fresh {hub : Hub} (issued : Issued hub) {count : Nat} (next : hub.ids.next < count)
    (distinct : hub.ids.Distinct count) : hub.conflicts[hub.ids.draw.1]? = none := by
  cases held : hub.conflicts[hub.ids.draw.1]? with
  | none => rfl
  | some conflict =>
    have member : hub.ids.draw.1 ∈ hub.conflicts := by
      rw [ExtTreeMap.mem_iff_isSome_getElem?, held]
      rfl
    obtain ⟨number, before, same⟩ := issued _ member
    have repeated := distinct number (Nat.lt_trans before next) hub.ids.next next same
    omega

theorem Issued.raise {hub : Hub} {conflict : Conflict} (issued : Issued hub)
    (named : conflict.id = hub.ids.draw.1) :
    Issued (Hub.raise { hub with ids := hub.ids.draw.2 } conflict) := by
  intro id member
  rcases ExtTreeMap.mem_insert.mp member with same | old
  · exact ⟨hub.ids.next, Nat.lt_succ_self _, named.symm.trans (LawfulEqOrd.eq_of_compare same)⟩
  · obtain ⟨number, before, drawn⟩ := issued id old
    exact ⟨number, Nat.lt_succ_of_lt before, drawn⟩

theorem Issued.settle {hub : Hub} (issued : Issued hub) (id : Uuid) (path : String) :
    Issued (hub.settle id path) := by
  intro other member
  obtain ⟨number, before, drawn⟩ := issued other (ExtTreeMap.mem_of_mem_erase member)
  exact ⟨number, Nat.lt_succ_of_lt before, drawn⟩

theorem Issued.enqueue {hub : Hub} (issued : Issued hub) (revision : Revision) :
    Issued (hub.enqueue revision).2 := by
  rcases enqueue_cases hub revision with ⟨-, queued⟩ | ⟨oldest, rest, -, -, queued⟩
  all_goals rw [queued]; exact issued

@[simp] theorem ids_enqueue (hub : Hub) (revision : Revision) :
    (hub.enqueue revision).2.ids = hub.ids := by
  rcases enqueue_cases hub revision with ⟨-, queued⟩ | ⟨oldest, rest, -, -, queued⟩
  all_goals rw [queued]

theorem ids_congr {before after : Hub} (same : after.docket = before.docket) : after.ids = before.ids :=
  congrArg Docket.ids same

/-- A request draws one id at most. -/
theorem ids_apply (now : Timestamp) (hub : Hub) (request : Request) :
    (request.apply now hub).ids = hub.ids ∨ (request.apply now hub).ids = hub.ids.draw.2 := by
  cases request with
  | register transport => exact .inl rfl
  | deregister client => exact .inl (ids_congr (docket_deregister hub client))
  | broadcast message => exact .inl (ids_congr (docket_broadcast hub message))
  | heartbeat => exact .inl (ids_congr (docket_heartbeat hub now))
  | flush =>
    have same := ids_congr (docket_flush hub now)
    exact .inl same
  | submit revision =>
    cases held : hub.conflictOf[revision.path]? with
    | some id =>
      have same := ids_congr (docket_submit_absorbed now held)
      exact .inl same
    | none =>
      cases found : hub.raised? now revision with
      | some conflict => exact .inr (ids_congr (docket_submit_raised now held found))
      | none => exact .inl ((ids_congr (docket_submit_queued now held found)).trans (ids_enqueue _ _))
  | resolve id resolution =>
    cases known : hub.conflicts[id]? with
    | none => exact .inl (by simp only [Request.apply, resolve_unknown now resolution known])
    | some conflict =>
      exact .inr ((ids_congr (docket_resolve now resolution known)).trans (ids_enqueue _ _))

theorem ids_run (requests : List (Timestamp × Request)) (hub : Hub) :
    hub.ids.next ≤ (run hub requests).ids.next ∧
      (run hub requests).ids.next ≤ hub.ids.next + requests.length := by
  induction requests generalizing hub with
  | nil => exact ⟨Nat.le_refl _, Nat.le_refl _⟩
  | cons entry rest ih =>
    obtain ⟨now, request⟩ := entry
    have later := ih (request.apply now hub)
    rw [run, List.length_cons]
    rcases ids_apply now hub request with same | drawn
    · rw [same] at later
      omega
    · rw [drawn, Uuid.Supply.draw] at later
      dsimp only at later
      omega

theorem distinct_apply {hub : Hub} (now : Timestamp) (request : Request) {count : Nat} (distinct : hub.ids.Distinct count) :
    (request.apply now hub).ids.Distinct count := by
  rcases ids_apply now hub request with same | drawn
  · rw [same]
    exact distinct
  · rw [drawn]
    exact distinct

theorem distinct_run {hub : Hub} (requests : List (Timestamp × Request)) {count : Nat} (distinct : hub.ids.Distinct count) :
    (run hub requests).ids.Distinct count := by
  induction requests generalizing hub with
  | nil => exact distinct
  | cons entry rest ih => exact ih (distinct_apply entry.1 entry.2 distinct)

/-! ### Requests -/

theorem submit_keeps {hub : Hub} (valid : Consistent hub) (issued : Issued hub) (now : Timestamp)
    (revision : Revision) {count : Nat} (enough : (hub.submit now revision).2.ids.next ≤ count)
    (distinct : hub.ids.Distinct count) :
    Consistent (hub.submit now revision).2 ∧ Issued (hub.submit now revision).2 := by
  cases held : hub.conflictOf[revision.path]? with
  | some id =>
    have same := docket_submit_absorbed now held
    refine ⟨(valid.absorb id revision).congr same, Issued.congr ?_ same⟩
    intro other member
    exact issued other (ExtTreeMap.mem_modify.mp member)
  | none =>
    cases found : hub.raised? now revision with
    | some conflict =>
      obtain ⟨path, named, pending⟩ := raised?_shape found
      have same := docket_submit_raised now held found
      rw [ids_congr same] at enough
      have fresh := issued.fresh enough distinct
      have pruned := valid.prune now
      have kept : Issued (hub.pruneRecent now) := issued
      refine ⟨Consistent.congr (Consistent.raise ?_ (path ▸ held) (named ▸ fresh) pending) same,
        Issued.congr (kept.raise named) same⟩
      exact ⟨pruned.inverse, pruned.queue, pruned.recent, pruned.pending, pruned.depth, pruned.tally⟩
    | none =>
      have same := docket_submit_queued now held found
      have kept : Issued (hub.pruneRecent now) := issued
      exact ⟨((valid.prune now).enqueue held).congr same, Issued.congr (kept.enqueue revision) same⟩

private theorem resolve_keeps {hub : Hub} (valid : Consistent hub) (issued : Issued hub) (now : Timestamp)
    (id : Uuid) (resolution : Resolution) :
    Consistent (hub.resolve now id resolution).2 ∧ Issued (hub.resolve now id resolution).2 := by
  cases known : hub.conflicts[id]? with
  | none =>
    rw [resolve_unknown now resolution known]
    exact ⟨valid, issued⟩
  | some conflict =>
    have same := docket_resolve now resolution known
    have settled := valid.settle known
    have path : (conflict.settle hub.ids.draw.1 now resolution).path = conflict.path := by
      cases resolution <;> rfl
    have free : (hub.settle id conflict.path).conflictOf[(conflict.settle hub.ids.draw.1 now resolution).path]? = none := by
      rw [path]
      exact ExtTreeMap.getElem?_erase_self
    exact ⟨(settled.enqueue free).congr same, ((issued.settle id conflict.path).enqueue _).congr same⟩

theorem apply_keeps {hub : Hub} (valid : Consistent hub) (issued : Issued hub) (now : Timestamp)
    (request : Request) {count : Nat} (enough : (request.apply now hub).ids.next ≤ count)
    (distinct : hub.ids.Distinct count) :
    Consistent (request.apply now hub) ∧ Issued (request.apply now hub) := by
  have unchanged {after : Hub} (same : after.docket = hub.docket) : Consistent after ∧ Issued after :=
    ⟨valid.congr same, issued.congr same⟩
  cases request with
  | register transport => exact unchanged (docket_register hub transport)
  | deregister client => exact unchanged (docket_deregister hub client)
  | broadcast message => exact unchanged (docket_broadcast hub message)
  | heartbeat => exact unchanged (docket_heartbeat hub now)
  | submit revision => exact submit_keeps valid issued now revision enough distinct
  | resolve id resolution => exact resolve_keeps valid issued now id resolution
  | flush =>
    refine ⟨valid.flush now, Issued.congr ?_ (docket_flush hub now)⟩
    exact issued

theorem run_keeps {hub : Hub} (valid : Consistent hub) (issued : Issued hub)
    (requests : List (Timestamp × Request)) (distinct : hub.ids.Distinct (run hub requests).ids.next) :
    Consistent (run hub requests) ∧ Issued (run hub requests) := by
  induction requests generalizing hub with
  | nil => exact ⟨valid, issued⟩
  | cons entry rest ih =>
    obtain ⟨now, request⟩ := entry
    have enough := (ids_run rest (request.apply now hub)).1
    obtain ⟨valid, issued⟩ := apply_keeps valid issued now request enough distinct
    exact ih valid issued (distinct_apply now request distinct)

/-- Whatever is asked of a hub, and whichever messages get lost, its books agree afterwards. The
only thing taken for granted is that it never draws one id twice. -/
theorem run_conflicts_consistent (settings : Settings) (ids : Uuid.Supply)
    (requests : List (Timestamp × Request))
    (distinct : ids.Distinct (run { settings, ids } requests).ids.next) :
    Consistent (run { settings, ids } requests) := by
  refine (run_keeps (Consistent.initial settings ids) ?_ requests distinct).1
  intro id member
  exact False.elim (ExtTreeMap.not_mem_empty member)

/-- A hand-made change meets a generated one, is joined by a third, and is settled by a merge. -/
theorem clash_conflicts_consistent :
    let generated := Revision.make (.ofNat 1) (.ofNanos 0) .file "guide.md" "generated" .auto
    let written := Revision.make (.ofNat 2) (.ofNanos 0) .file "guide.md" "by hand" .manual
    let ids : Uuid.Supply := { space := 1 }
    let requests : List (Timestamp × Request) :=
      [(.ofNanos 0, .submit generated), (.ofNanos 1, .submit written), (.ofNanos 2, .submit generated),
        (.ofNanos 3, .resolve (ids.nth 0) (.merge "merged")), (.ofNanos 4, .flush)]
    ids.Distinct (run { settings := {}, ids } requests).ids.next ∧
      Consistent (run { settings := {}, ids } requests) := by
  intro generated written ids requests
  have drawn := (ids_run requests { settings := {}, ids }).2
  have distinct : ids.Distinct (run { settings := {}, ids } requests).ids.next := by
    apply Uuid.Supply.distinct_of_le
    exact Nat.le_trans (Nat.add_le_add_left drawn _) (by decide)
  exact ⟨distinct, run_conflicts_consistent {} ids requests distinct⟩

end FreshDocs.Sync.Hub
