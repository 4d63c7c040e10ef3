import FreshDocs.Proofs.SortedMaps
import FreshDocs.Proofs.StoreSteps
import Mathlib.Algebra.Ring.Nat

/-! The two maps of a store and its running total never disagree, and a request never leaves
more in a store than its limits allow. Eviction relies on the first for the second: it follows
the order of uses, and it stops in time only if every entry stands in that order. -/

namespace FreshDocs.Store
open Std

variable {α : Type}

def heldSize (store : Store α) : Nat :=
  (store.entries.toList.map (·.2.size)).sum

structure Coherent (store : Store α) : Prop where
  inverse : ∀ tick key, store.order[tick]? = some key ↔
    ∃ entry, store.find? key = some entry ∧ entry.tick = tick
  ticks : ∀ key entry, store.find? key = some entry → entry.tick ≤ store.lastTick
  total : store.totalSize = store.heldSize

/-- What a store holds is within its limits. -/
structure Within (store : Store α) : Prop where
  entries : store.length ≤ store.limits.maxEntries
  size : store.totalSize ≤ store.limits.maxSize

/-- Dropping an entry takes its size off the total, without stopping short at zero. -/
def Exact (store : Store α) : Prop :=
  ∀ key entry, store.find? key = some entry →
    (store.drop key).totalSize + entry.size = store.totalSize

theorem Coherent.initial (limits : Limits) (weigh : α → Nat) :
    Coherent ({ limits, weigh } : Store α) := by
  constructor
  · simp [find?]
  · simp [find?]
  · simp [heldSize, ExtTreeMap.toList_eq_nil_iff.mpr]

/-! ### The total -/

theorem heldSize_erase {store : Store α} {key : String} {entry : Entry α}
    (present : store.find? key = some entry) :
    store.heldSize = entry.size + ((store.entries.erase key).toList.map (·.2.size)).sum := by
  have split := (SortedMap.toList_perm_erase present).map (·.2.size)
  simpa only [heldSize, List.map_cons, List.sum_cons] using split.sum_nat

private theorem heldSize_insert {store : Store α} {key : String} (entry : Entry α)
    (free : store.find? key = none) :
    ((store.entries.insert key entry).toList.map (·.2.size)).sum = entry.size + store.heldSize := by
  have split := (SortedMap.toList_insert_perm entry free).map (·.2.size)
  simpa only [heldSize, List.map_cons, List.sum_cons] using split.sum_nat

/-- An entry in another place of the order weighs what it weighed before. -/
theorem heldSize_replace {store : Store α} {key : String} {entry : Entry α} (tick : Nat)
    (present : store.find? key = some entry) :
    ((store.entries.insert key { entry with tick }).toList.map (·.2.size)).sum = store.heldSize := by
  have old := heldSize_erase present
  have placed : find? { store with entries := store.entries.insert key { entry with tick } } key =
      some { entry with tick } := ExtTreeMap.getElem?_insert_self
  have new := heldSize_erase placed
  have same : (store.entries.insert key { entry with tick }).erase key = store.entries.erase key := by
    apply ExtTreeMap.ext_getElem?
    intro other
    simp only [ExtTreeMap.getElem?_erase, ExtTreeMap.getElem?_insert]
    split <;> rfl
  rw [old]
  simpa only [heldSize, same] using new

theorem Coherent.size_le {store : Store α} (valid : Coherent store) {key : String} {entry : Entry α}
    (present : store.find? key = some entry) : entry.size ≤ store.totalSize := by
  rw [valid.total, heldSize_erase present]
  exact Nat.le_add_right _ _

theorem Coherent.exact {store : Store α} (valid : Coherent store) : Exact store := by
  intro key entry present
  rw [drop_of_present present]
  exact Nat.sub_add_cancel (valid.size_le present)

/-! ### Elementary changes -/

private theorem Coherent.unused_tick {store : Store α} (valid : Coherent store) :
    store.order[store.lastTick + 1]? = none := by
  cases found : store.order[store.lastTick + 1]? with
  | none => rfl
  | some key =>
    obtain ⟨entry, present, later⟩ := (valid.inverse _ _).mp found
    have bound := valid.ticks key entry present
    omega

theorem Coherent.indexes {store : Store α} (valid : Coherent store) :
    SortedMap.Indexes store.order store.entries (·.tick) :=
  valid.inverse

theorem Coherent.drop {store : Store α} (valid : Coherent store) (key : String) :
    Coherent (store.drop key) := by
  cases found : store.find? key with
  | none => rwa [drop_of_absent found]
  | some entry =>
    have inside other := find?_drop store key other
    rw [drop_of_present found] at inside ⊢
    refine ⟨valid.indexes.erase found, ?_, ?_⟩
    · intro other held present
      rw [inside] at present
      split at present
      · cases present
      · exact valid.ticks other held present
    · have old := valid.total
      rw [heldSize_erase found] at old
      simp only [heldSize]
      omega

theorem Coherent.put {store : Store α} (valid : Coherent store) (key : String) (value : α)
    (digest : Digest) (storedAt : Timestamp) (size : Nat) (free : store.find? key = none) :
    Coherent (store.put key value digest storedAt size) := by
  let entry : Entry α := { value, digest, storedAt, size, tick := store.lastTick + 1 }
  have inside other := find?_put store key value digest storedAt size other
  have unused : store.order[entry.tick]? = none := valid.unused_tick
  refine ⟨valid.indexes.insert unused free, ?_, ?_⟩
  · intro other held present
    rw [inside] at present
    split at present
    · cases present
      exact Nat.le_refl _
    · exact Nat.le_succ_of_le (valid.ticks other held present)
  · have old := valid.total
    have new := heldSize_insert entry free
    simp only [Store.put, heldSize, entry] at new ⊢
    simp only [heldSize] at old
    omega

theorem Coherent.use {store : Store α} (valid : Coherent store) {key : String} {entry : Entry α}
    (present : store.find? key = some entry) : Coherent (store.use key entry) := by
  let moved : Entry α := { entry with tick := store.lastTick + 1 }
  have inside other := find?_use store key entry other
  have unused : store.order[moved.tick]? = none := valid.unused_tick
  refine ⟨valid.indexes.replace present unused, ?_, ?_⟩
  · intro other held there
    rw [inside] at there
    split at there
    · cases there
      exact Nat.le_refl _
    · exact Nat.le_succ_of_le (valid.ticks other held there)
  · exact valid.total.trans (heldSize_replace (store.lastTick + 1) present).symm

theorem Coherent.clear (store : Store α) : Coherent store.clear := by
  constructor
  · simp [Store.clear, find?]
  · simp [Store.clear, find?]
  · simp [Store.clear, heldSize, ExtTreeMap.toList_eq_nil_iff.mpr]

theorem Coherent.step {before after : Store α} (valid : Coherent before) (step : Step before after) :
    Coherent after := by
  cases step with
  | drop key => exact valid.drop key
  | put key value digest storedAt size free => exact valid.put key value digest storedAt size free
  | use key entry present => exact valid.use present
  | clear => exact .clear before
  | count limits hits misses evictions expirations => exact ⟨valid.inverse, valid.ticks, valid.total⟩

theorem Coherent.steps {before after : Store α} (valid : Coherent before) (path : Steps before after) :
    Coherent after := by
  induction path with
  | refl => exact valid
  | tail _ step ih => exact ih.step step

theorem Coherent.apply [ToJson α] {store : Store α} (valid : Coherent store) (now : Timestamp)
    (request : Request α) : Coherent (request.apply now store) :=
  valid.steps (steps_apply now store request)

/-! ### Limits -/

theorem within_iff (store : Store α) : Within store ↔ store.isOverfull = false := by
  simp only [isOverfull, Bool.or_eq_false_iff, decide_eq_false_iff_not, Nat.not_lt]
  exact ⟨fun within => ⟨within.size, within.entries⟩, fun within => ⟨within.2, within.1⟩⟩

theorem Coherent.mem_keys {store : Store α} (valid : Coherent store) {key : String} {entry : Entry α}
    (present : store.find? key = some entry) : key ∈ store.keys :=
  SortedMap.mem_values.mpr ⟨entry.tick, (valid.inverse entry.tick key).mpr ⟨entry, present, rfl⟩⟩

/-- Nothing is held once every key is gone, so no limit can be exceeded any more. -/
theorem Coherent.within_of_empty {store : Store α} (valid : Coherent store)
    (none_left : ∀ key, store.find? key = none) : Within store := by
  have empty : store.entries = ∅ := by
    apply ExtTreeMap.ext_getElem?
    intro key
    rw [ExtTreeMap.getElem?_empty]
    exact none_left key
  have held : store.totalSize = 0 := by
    simp [valid.total, heldSize, empty, ExtTreeMap.toList_eq_nil_iff.mpr]
  exact ⟨by simp [length, empty], by omega⟩

/-- Eviction cannot run out of keys before the limits hold, as long as no entry is missing from
the keys it goes through. -/
theorem Coherent.evictFrom_within {store : Store α} (valid : Coherent store) (keys : List String)
    (covered : ∀ key entry, store.find? key = some entry → key ∈ keys) :
    Within (store.evictFrom keys) := by
  induction keys generalizing store with
  | nil =>
    apply valid.within_of_empty
    intro key
    cases found : store.find? key with
    | none => rfl
    | some entry => cases covered key entry found
  | cons key rest ih =>
    rw [evictFrom]
    split
    next =>
      have dropped := valid.drop key
      apply ih (dropped.step (.count (store.drop key) _ _ _ _ _))
      intro other entry present
      have present : (store.drop key).find? other = some entry := present
      rw [find?_drop] at present
      split at present
      next => cases present
      next different => exact List.mem_of_ne_of_mem (Ne.symm different) (covered other entry present)
    next fits => exact (within_iff store).mpr (Bool.eq_false_iff.mpr fits)

private theorem Coherent.evict_within {store : Store α} (valid : Coherent store) : Within store.evict := by
  unfold evict
  split
  next => exact valid.evictFrom_within _ (fun _ _ present => valid.mem_keys present)
  next fits => exact (within_iff store).mpr (Bool.eq_false_iff.mpr fits)

theorem Within.drop {store : Store α} (within : Within store) (key : String) :
    Within (store.drop key) := by
  cases found : store.find? key with
  | none => rwa [drop_of_absent found]
  | some entry =>
    rw [drop_of_present found]
    exact ⟨Nat.le_trans ExtTreeMap.size_erase_le within.entries,
      Nat.le_trans (Nat.sub_le _ _) within.size⟩

theorem Within.drops {store : Store α} (within : Within store) (keys : List String) :
    Within (keys.foldl Store.drop store) := by
  induction keys generalizing store with
  | nil => exact within
  | cons key rest ih => exact ih (within.drop key)

theorem Within.use {store : Store α} (within : Within store) {key : String} {entry : Entry α}
    (present : store.find? key = some entry) : Within (store.use key entry) := by
  have held : store.entries.contains key := by
    rw [ExtTreeMap.contains_eq_isSome_getElem?]
    exact Option.isSome_of_eq_some present
  refine ⟨?_, within.size⟩
  simpa [Store.use, length, ExtTreeMap.size_insert, held] using within.entries

theorem Within.apply [ToJson α] {store : Store α} (within : Within store) (valid : Coherent store)
    (now : Timestamp) (request : Request α) : Within (request.apply now store) := by
  cases request with
  | set key value digest =>
    have free : (store.drop key).find? key = none := by simp [find?_drop]
    exact ((valid.drop key).put key value _ now _ free).evict_within
  | get key digest =>
    simp only [Request.apply, get]
    split
    next => exact ⟨within.entries, within.size⟩
    next entry present =>
      split
      · exact ⟨(within.drop key).entries, (within.drop key).size⟩
      · exact ⟨(within.use present).entries, (within.use present).size⟩
  | has | peek => exact within
  | delete key => exact within.drop key
  | clear => exact ⟨Nat.zero_le _, Nat.zero_le _⟩
  | resize maxSize maxEntries =>
    apply Coherent.evict_within
    exact ⟨valid.inverse, valid.ticks, valid.total⟩
  | sweep =>
    have swept := within.drops (store.expiredKeys now)
    exact ⟨swept.entries, swept.size⟩

/-! ### Runs -/

theorem run_keeps [ToJson α] {store : Store α} (valid : Coherent store) (within : Within store)
    (requests : List (Timestamp × Request α)) :
    Coherent (run store requests) ∧ Within (run store requests) := by
  induction requests generalizing store with
  | nil => exact ⟨valid, within⟩
  | cons entry rest ih =>
    obtain ⟨now, request⟩ := entry
    exact ih (valid.apply now request) (within.apply valid now request)

/-- Whatever is asked of a store, and however small its limits are, its two maps stay inverse,
the total stays that of the entries, and both limits hold whenever a request is over. On the way
the limits may be exceeded, but the total is exact there too: no size is ever taken off a total
that is too small for it. -/
theorem run_coherent_within_limits [ToJson α] (limits : Limits) (weigh : α → Nat)
    (requests : List (Timestamp × Request α)) :
    let store := run { limits, weigh } requests
    Coherent store ∧ Within store ∧
      (∀ now (request : Request α), Steps store (request.apply now store)) ∧
      ∀ passed, Steps store passed → Exact passed := by
  have start : Coherent ({ limits, weigh } : Store α) := .initial limits weigh
  obtain ⟨valid, within⟩ := run_keeps start ⟨Nat.zero_le _, Nat.zero_le _⟩ requests
  refine ⟨valid, within, fun now request => steps_apply now _ request, ?_⟩
  intro passed path
  exact (valid.steps path).exact

end FreshDocs.Store
