import FreshDocs.Proofs.StoreCoherence
import FreshDocs.Proofs.StoreContents
import Mathlib.Data.List.Nodup
import Mathlib.Data.Nat.Find

/-! The order of uses. A store keeps it as ticks, in two maps at once; from outside it is a list,
with the key used longest ago in front. The same requests are carried out here on such a list
alone, and whatever is asked of a store, its keys are those of the list. -/

namespace FreshDocs.Store
open Std

variable {α : Type}

/-- An entry with its key, and without a place in the order of uses. -/
structure Item (α : Type) where
  key : String
  value : α
  digest : Digest
  storedAt : Timestamp
  size : Nat

def Item.of (key : String) (entry : Entry α) : Item α :=
  { key, value := entry.value, digest := entry.digest, storedAt := entry.storedAt, size := entry.size }

/-- Whether items are within both limits together. -/
def Limits.Hold (limits : Limits) (items : List (Item α)) : Prop :=
  (items.map (·.size)).sum ≤ limits.maxSize ∧ items.length ≤ limits.maxEntries

instance (limits : Limits) (items : List (Item α)) : Decidable (limits.Hold items) :=
  inferInstanceAs (Decidable (_ ∧ _))

theorem Limits.exists_hold (limits : Limits) (items : List (Item α)) : ∃ count, limits.Hold (items.drop count) :=
  ⟨items.length, by simp [Limits.Hold]⟩

/-- The items without the shortest beginning after which the limits hold. -/
def Limits.trim (limits : Limits) (items : List (Item α)) : List (Item α) :=
  items.drop (Nat.find (limits.exists_hold items))

/-- A store as its items, the one used longest ago first. -/
@[ext]
structure Recency (α : Type) where
  limits : Limits
  weigh : α → Nat
  items : List (Item α) := []

namespace Recency

def find? (recency : Recency α) (key : String) : Option (Item α) :=
  recency.items.find? (·.key = key)

def without (recency : Recency α) (key : String) : List (Item α) :=
  recency.items.filter (·.key ≠ key)

def isExpired (recency : Recency α) (now : Timestamp) (item : Item α) : Bool :=
  Timestamp.olderThan recency.limits.ttl item.storedAt now

def serve? (recency : Recency α) (now : Timestamp) (key : String) (digest : Option Digest) : Option (Item α) :=
  (recency.find? key).filter fun item => !recency.isExpired now item && digest.all (· = item.digest)

def set [ToJson α] (recency : Recency α) (now : Timestamp) (key : String) (value : α) (digest : Option Digest) :
    Recency α :=
  let digest := digest.getD (Digest.ofText (toJson value).compact)
  let item : Item α := { key, value, digest, storedAt := now, size := recency.weigh value }
  { recency with items := recency.limits.trim (recency.without key ++ [item]) }

def get (recency : Recency α) (now : Timestamp) (key : String) (digest : Option Digest) : Recency α :=
  { recency with items := recency.without key ++ (recency.serve? now key digest).toList }

def resize (recency : Recency α) (maxSize maxEntries : Option Nat) : Recency α :=
  let limits :=
    { recency.limits with
      maxSize := maxSize.getD recency.limits.maxSize
      maxEntries := maxEntries.getD recency.limits.maxEntries }
  { recency with limits, items := limits.trim recency.items }

def sweep (recency : Recency α) (now : Timestamp) : Recency α :=
  { recency with items := recency.items.filter (!recency.isExpired now ·) }

end Recency

/-- All that can be asked of a store, also where it can change nothing. -/
inductive Operation (α : Type) where
  | ask (request : Request α)
  | readDigest (key : String)
  | readStats

def Operation.apply [ToJson α] (now : Timestamp) (store : Store α) : Operation α → Store α
  | .ask request => request.apply now store
  | .readDigest _ | .readStats => store

def Recency.apply [ToJson α] (now : Timestamp) (recency : Recency α) : Operation α → Recency α
  | .ask (.set key value digest) => recency.set now key value digest
  | .ask (.get key digest) => recency.get now key digest
  | .ask (.delete key) => { recency with items := recency.without key }
  | .ask .clear => { recency with items := [] }
  | .ask (.resize maxSize maxEntries) => recency.resize maxSize maxEntries
  | .ask .sweep => recency.sweep now
  | .ask (.has _) | .ask (.peek _) | .readDigest _ | .readStats => recency

def operate [ToJson α] (store : Store α) : List (Timestamp × Operation α) → Store α
  | [] => store
  | (now, operation) :: rest => operate (operation.apply now store) rest

def Recency.operate [ToJson α] (recency : Recency α) : List (Timestamp × Operation α) → Recency α
  | [] => recency
  | (now, operation) :: rest => operate (recency.apply now operation) rest

/-! ### The items of a store -/

def itemAt? (store : Store α) (place : Nat × String) : Option (Item α) :=
  (store.find? place.2).map (Item.of place.2)

def recency (store : Store α) : Recency α :=
  { limits := store.limits
    weigh := store.weigh
    items := store.order.toList.filterMap store.itemAt? }

section
variable {store : Store α}

/-- In a coherent store there is an item at every place, and its tick is that place. -/
theorem Coherent.itemAt? (valid : Coherent store) {place : Nat × String} (member : place ∈ store.order.toList) :
    ∃ entry, store.find? place.2 = some entry ∧ entry.tick = place.1 ∧
      store.itemAt? place = some (Item.of place.2 entry) := by
  obtain ⟨entry, present, tick⟩ := (valid.inverse place.1 place.2).mp
    (ExtTreeMap.mem_toList_iff_getElem?_eq_some.mp member)
  exact ⟨entry, present, tick, by simp [Store.itemAt?, present]⟩

theorem Coherent.mem_items (valid : Coherent store) {item : Item α} :
    item ∈ store.recency.items ↔ ∃ entry, store.find? item.key = some entry ∧ Item.of item.key entry = item := by
  simp only [recency, List.mem_filterMap]
  constructor
  · rintro ⟨place, member, found⟩
    obtain ⟨entry, present, -, same⟩ := valid.itemAt? member
    cases same.symm.trans found
    exact ⟨entry, present, rfl⟩
  · rintro ⟨entry, present, same⟩
    have placed := (valid.inverse entry.tick item.key).mpr ⟨entry, present, rfl⟩
    refine ⟨(entry.tick, item.key), ExtTreeMap.mem_toList_iff_getElem?_eq_some.mpr placed, ?_⟩
    simp [Store.itemAt?, present, same]

theorem Coherent.keys_items (valid : Coherent store) : store.recency.items.map (·.key) = store.keys := by
  rw [keys, SortedMap.values_eq_map, recency, List.map_filterMap]
  rw [← List.filterMap_eq_map]
  apply List.filterMap_congr
  intro place member
  obtain ⟨entry, -, -, same⟩ := valid.itemAt? member
  simp [same, Item.of]

theorem Coherent.mem_keys_iff (valid : Coherent store) {key : String} :
    key ∈ store.keys ↔ (store.find? key).isSome := by
  constructor
  · intro listed
    obtain ⟨item, member, rfl⟩ := List.mem_map.mp (valid.keys_items.symm ▸ listed)
    obtain ⟨entry, present, -⟩ := valid.mem_items.mp member
    exact Option.isSome_of_eq_some present
  · intro held
    obtain ⟨entry, present⟩ := Option.isSome_iff_exists.mp held
    exact valid.mem_keys present

/-- No key stands in the order of uses twice. -/
theorem Coherent.keys_nodup (valid : Coherent store) : store.keys.Nodup := by
  rw [keys, SortedMap.values_eq_map]
  apply List.Pairwise.map
  · exact fun _ _ different => different
  apply (List.Pairwise.and_mem.mp (SortedMap.toList_nodup store.order)).imp
  rintro first second ⟨one, two, different⟩ same
  obtain ⟨entry, present, tick, -⟩ := valid.itemAt? one
  obtain ⟨other, held, place, -⟩ := valid.itemAt? two
  rw [← same, present] at held
  cases held
  exact different (Prod.ext (tick.symm.trans place) same)

/-- The order of uses lists every entry once. -/
theorem Coherent.items_perm (valid : Coherent store) :
    store.recency.items.Perm (store.entries.toList.map fun entry => Item.of entry.1 entry.2) := by
  have distinct : store.recency.items.Nodup := by
    apply List.Nodup.of_map (·.key)
    rw [valid.keys_items]
    exact valid.keys_nodup
  have entries : (store.entries.toList.map fun entry => Item.of entry.1 entry.2).Nodup := by
    apply List.pairwise_map.mpr
    apply store.entries.distinct_keys_toList.imp
    intro first second different same
    exact different (Std.compare_eq_iff_eq.mpr (congrArg Item.key same))
  apply (List.perm_ext_iff_of_nodup distinct entries).mpr
  intro item
  rw [valid.mem_items, List.mem_map]
  constructor
  · rintro ⟨entry, present, same⟩
    exact ⟨(item.key, entry), ExtTreeMap.mem_toList_iff_getElem?_eq_some.mpr present, same⟩
  · rintro ⟨⟨key, entry⟩, member, rfl⟩
    exact ⟨entry, ExtTreeMap.mem_toList_iff_getElem?_eq_some.mp member, rfl⟩

theorem Coherent.length_items (valid : Coherent store) : store.recency.items.length = store.length := by
  rw [valid.items_perm.length_eq, List.length_map]
  exact ExtTreeMap.length_toList

private theorem Coherent.size_items (valid : Coherent store) : (store.recency.items.map (·.size)).sum = store.totalSize := by
  rw [(valid.items_perm.map (·.size)).sum_nat, valid.total, heldSize, List.map_map]
  rfl

private theorem Coherent.hold_iff (valid : Coherent store) : store.limits.Hold store.recency.items ↔ store.isOverfull = false := by
  rw [← within_iff, Limits.Hold, valid.size_items, valid.length_items]
  exact ⟨fun hold => ⟨hold.2, hold.1⟩, fun within => ⟨within.size, within.entries⟩⟩

private theorem Coherent.find?_items (valid : Coherent store) (key : String) :
    store.recency.find? key = (store.find? key).map (Item.of key) := by
  rw [Recency.find?]
  cases first : store.recency.items.find? (·.key = key) with
  | some item =>
    have same : item.key = key := by simpa using List.find?_some first
    subst same
    obtain ⟨entry, present, shape⟩ := valid.mem_items.mp (List.mem_of_find?_eq_some first)
    rw [present, Option.map_some, shape]
  | none =>
    cases found : store.find? key with
    | none => rfl
    | some entry =>
      have missed := List.find?_eq_none.mp first (Item.of key entry) (valid.mem_items.mpr ⟨entry, found, rfl⟩)
      exact absurd (decide_eq_true rfl) missed

/-! ### Elementary changes -/

theorem Coherent.below (valid : Coherent store) (place : Nat) (key : String) (found : store.order[place]? = some key) :
    compare place (store.lastTick + 1) = .lt := by
  obtain ⟨entry, present, rfl⟩ := (valid.inverse place key).mp found
  exact Nat.compare_eq_lt.mpr (Nat.lt_succ_of_le (valid.ticks key entry present))

theorem Coherent.items_drop (valid : Coherent store) (key : String) :
    (store.drop key).recency.items = store.recency.without key := by
  cases found : store.find? key with
  | none =>
    rw [drop_of_absent found]
    refine (List.filter_eq_self.mpr ?_).symm
    intro item member
    obtain ⟨entry, present, -⟩ := valid.mem_items.mp member
    apply decide_eq_true
    rintro rfl
    rw [found] at present
    cases present
  | some entry =>
    have order : (store.drop key).order = store.order.erase entry.tick := by rw [drop_of_present found]
    simp only [recency, Recency.without, order, SortedMap.toList_erase, List.filterMap_filter, List.filter_filterMap]
    apply List.filterMap_congr
    intro place member
    obtain ⟨other, present, tick, here⟩ := valid.itemAt? member
    by_cases same : key = place.2
    · -- The key stands at one place only, which is the one that was taken out.
      rw [← same, found] at present
      cases present
      simp [here, tick, Item.of, ← same, Option.filter]
    · have elsewhere : entry.tick ≠ place.1 := by
        intro tied
        exact same (valid.indexes.injective found present (tied.trans tick.symm))
      simp [Item.of, Ne.symm same, elsewhere, Store.itemAt?, find?_drop, same, present, Option.filter]

/-- Whatever was put into a store last is the last of its items. -/
theorem Coherent.items_put (valid : Coherent store) {key : String} (value : α) (digest : Digest)
    (storedAt : Timestamp) (size : Nat) (free : store.find? key = none) :
    (store.put key value digest storedAt size).recency.items =
      store.recency.items ++ [⟨key, value, digest, storedAt, size⟩] := by
  have order : (store.put key value digest storedAt size).order.toList =
      store.order.toList ++ [(store.lastTick + 1, key)] := SortedMap.toList_insert_above key valid.below
  have found (other : String) := find?_put store key value digest storedAt size other
  simp only [recency, order, List.filterMap_append]
  congr 1
  · apply List.filterMap_congr
    intro place member
    obtain ⟨entry, present, -, -⟩ := valid.itemAt? member
    have elsewhere : key ≠ place.2 := by
      rintro rfl
      rw [free] at present
      cases present
    simp [Store.itemAt?, found, elsewhere]
  · simp [Store.itemAt?, found, Item.of]

/-- Marking an entry as used is the same as taking it out and putting it in again. -/
theorem Coherent.use_eq (valid : Coherent store) {key : String} {entry : Entry α}
    (present : store.find? key = some entry) :
    store.use key entry = (store.drop key).put key entry.value entry.digest entry.storedAt entry.size := by
  rw [drop_of_present present]
  simp only [Store.use, Store.put, SortedMap.insert_of_erase, Nat.sub_add_cancel (valid.size_le present)]

private theorem Coherent.items_use (valid : Coherent store) {key : String} {entry : Entry α}
    (present : store.find? key = some entry) :
    (store.use key entry).recency.items = store.recency.without key ++ [Item.of key entry] := by
  have free : (store.drop key).find? key = none := by simp [find?_drop]
  rw [valid.use_eq present, (valid.drop key).items_put _ _ _ _ free, valid.items_drop]
  rfl

theorem Coherent.items_drops (valid : Coherent store) (keys : List String) :
    (keys.foldl Store.drop store).recency.items = store.recency.items.filter (·.key ∉ keys) := by
  induction keys generalizing store with
  | nil => simp
  | cons key rest ih =>
    rw [List.foldl_cons, ih (valid.drop key), valid.items_drop, Recency.without, List.filter_filter]
    congr 1
    funext item
    simp [not_or, Bool.and_comm]

/-! ### Making room -/

theorem Limits.trim_of_hold {limits : Limits} {items : List (Item α)} (hold : limits.Hold items) :
    limits.trim items = items := by
  have none_goes : Nat.find (limits.exists_hold items) = 0 := (Nat.find_eq_zero _).mpr hold
  rw [trim, none_goes, List.drop_zero]

private theorem Limits.trim_cons {limits : Limits} {item : Item α} {rest : List (Item α)}
    (exceeded : ¬limits.Hold (item :: rest)) : limits.trim (item :: rest) = limits.trim rest := by
  rw [trim, Nat.find_comp_succ _ (limits.exists_hold rest) exceeded, List.drop_succ_cons]
  rfl

/-- Evicting keys one by one, as long as a limit is exceeded, trims the items. -/
theorem Coherent.items_evictFrom (valid : Coherent store) {keys : List String} (all : store.keys = keys) :
    (store.evictFrom keys).recency.items = store.limits.trim store.recency.items := by
  induction keys generalizing store with
  | nil =>
    have empty : store.recency.items = [] := by
      rw [← valid.keys_items] at all
      exact List.map_eq_nil_iff.mp all
    have holds : store.limits.Hold store.recency.items := by simp [empty, Limits.Hold]
    rw [Limits.trim_of_hold holds]
    rfl
  | cons key rest ih =>
    rw [evictFrom]
    split
    next exceeded =>
      obtain ⟨item, tail, shape, rfl, later⟩ := List.map_eq_cons_iff.mp (valid.keys_items.trans all)
      have once := all ▸ valid.keys_nodup
      -- The key in front is taken out, and no other item has this key.
      have dropped : (store.drop item.key).recency.items = tail := by
        rw [valid.items_drop, Recency.without, shape, List.filter_cons_of_neg (by simp), List.filter_eq_self]
        intro other member
        apply decide_eq_true
        intro same
        apply (List.nodup_cons.mp once).1
        rw [← later, ← same]
        exact List.mem_map_of_mem member
      have next : Coherent { store.drop item.key with evictions := store.evictions + 1 } :=
        (valid.drop item.key).step (.count (store.drop item.key) _ _ _ _ _)
      have keys : (store.drop item.key).keys = rest := by
        rw [← (valid.drop item.key).keys_items, dropped, later]
      have limits : (store.drop item.key).limits = store.limits := (Retains.drop store item.key).limits
      have exceeded : ¬store.limits.Hold (item :: tail) := by
        rw [← shape, valid.hold_iff, exceeded]
        exact Bool.noConfusion
      rw [shape, Limits.trim_cons exceeded]
      have trimmed := ih next keys
      rw [← dropped, ← limits]
      exact trimmed
    next fits =>
      have holds := valid.hold_iff.mpr (Bool.eq_false_iff.mpr fits)
      rw [Limits.trim_of_hold holds]

theorem Coherent.items_evict (valid : Coherent store) :
    store.evict.recency.items = store.limits.trim store.recency.items := by
  unfold evict
  split
  next => exact valid.items_evictFrom rfl
  next fits =>
    have holds := valid.hold_iff.mpr (Bool.eq_false_iff.mpr fits)
    rw [Limits.trim_of_hold holds]

/-! ### Requests -/

private theorem Coherent.items_set [ToJson α] (valid : Coherent store) (now : Timestamp) (key : String) (value : α)
    (digest : Option Digest) :
    (store.set now key value digest).recency.items = (store.recency.set now key value digest).items := by
  have free : (store.drop key).find? key = none := by simp [find?_drop]
  have limits : (store.drop key).limits = store.limits := (Retains.drop store key).limits
  have stored := (valid.drop key).put key value (digest.getD (Digest.ofText (toJson value).compact)) now
    (store.weigh value) free
  rw [Store.set, stored.items_evict, (valid.drop key).items_put _ _ _ _ free, valid.items_drop]
  simp only [Store.put, limits]
  rfl

theorem Coherent.serve?_items (valid : Coherent store) (now : Timestamp) (key : String) (digest : Option Digest) :
    store.recency.serve? now key digest =
      ((store.find? key).filter fun entry => !store.isExpired now entry && digest.all (· = entry.digest)).map
        (Item.of key) := by
  rw [Recency.serve?, valid.find?_items, Option.filter_map]
  rfl

/-- What a reader gets, and what is left, follows from the items. -/
theorem Coherent.get_items (valid : Coherent store) (now : Timestamp) (key : String) (digest : Option Digest) :
    (store.get now key digest).1 = (store.recency.serve? now key digest).map (·.value) ∧
      (store.get now key digest).2.recency.items = (store.recency.get now key digest).items := by
  rw [valid.serve?_items, Recency.get, valid.serve?_items]
  unfold Store.get
  split
  next absent =>
    have unchanged : store.recency.without key = store.recency.items := by
      rw [← valid.items_drop, drop_of_absent absent]
    simp [absent, unchanged]
    rfl
  next entry present =>
    have stale : (store.isExpired now entry || digest.any (· ≠ entry.digest)) =
        !(!store.isExpired now entry && digest.all (· = entry.digest)) := by
      cases digest <;> simp
    dsimp only
    rw [stale, present]
    cases fresh : !store.isExpired now entry && digest.all (· = entry.digest) with
    | false =>
      simp only [Bool.not_false, if_true, Option.filter, fresh]
      exact ⟨rfl, (valid.items_drop key).trans (List.append_nil _).symm⟩
    | true =>
      simp only [Bool.not_true, if_true, Option.filter, fresh]
      exact ⟨rfl, valid.items_use present⟩

theorem mem_expiredKeys {now : Timestamp} {key : String} {entry : Entry α} (present : store.find? key = some entry) :
    key ∈ store.expiredKeys now ↔ store.isExpired now entry = true := by
  rw [expiredKeys, ExtTreeMap.mem_keys, ExtTreeMap.mem_iff_isSome_getElem?, ExtTreeMap.getElem?_filter']
  rw [show store.entries[key]? = some entry from present]
  simp [Option.filter]

private theorem Coherent.items_sweep (valid : Coherent store) (now : Timestamp) :
    (store.sweep now).2.recency.items = (store.recency.sweep now).items := by
  apply (valid.items_drops (store.expiredKeys now)).trans
  apply List.filter_congr
  intro item member
  obtain ⟨entry, present, shape⟩ := valid.mem_items.mp member
  have same : store.recency.isExpired now item = store.isExpired now entry := by
    rw [← shape]
    rfl
  simp [mem_expiredKeys present, same]

private theorem weigh_steps {before after : Store α} (path : Steps before after) : after.weigh = before.weigh := by
  induction path with
  | refl => rfl
  | tail _ step ih =>
    rw [← ih]
    cases step with
    | drop key =>
      unfold drop
      split <;> rfl
    | put | use | clear | count => rfl

private theorem items_clear (store : Store α) : store.clear.recency.items = [] := by
  have listed := (Coherent.clear store).items_perm
  rw [show store.clear.entries.toList = [] from ExtTreeMap.toList_eq_nil_iff.mpr rfl] at listed
  exact listed.eq_nil

/-- What every operation does to a store, it does to the list of its items. -/
theorem Coherent.recency_apply [ToJson α] (valid : Coherent store) (now : Timestamp) (operation : Operation α) :
    (operation.apply now store).recency = Recency.apply now store.recency operation := by
  cases operation with
  | readDigest | readStats => rfl
  | ask request =>
    have weigh := weigh_steps (steps_apply now store request)
    cases request with
    | set key value digest =>
      exact Recency.ext (limits_set store now key value digest) weigh (valid.items_set now key value digest)
    | get key digest =>
      exact Recency.ext (Retains.get store now key digest).limits weigh (valid.get_items now key digest).2
    | has | peek => rfl
    | delete key => exact Recency.ext (Retains.drop store key).limits weigh (valid.items_drop key)
    | clear => exact Recency.ext rfl weigh (items_clear store)
    | resize maxSize maxEntries =>
      -- Only the limits are others before room is made.
      have resized : Coherent { store with limits := (store.recency.resize maxSize maxEntries).limits } :=
        ⟨valid.inverse, valid.ticks, valid.total⟩
      exact Recency.ext (Retains.evict _).limits weigh resized.items_evict
    | sweep => exact Recency.ext (Retains.sweep store now).limits weigh (valid.items_sweep now)

theorem Coherent.operation [ToJson α] (valid : Coherent store) (now : Timestamp) (operation : Operation α) :
    Coherent (operation.apply now store) := by
  cases operation with
  | ask request => exact valid.apply now request
  | readDigest | readStats => exact valid

theorem Coherent.recency_operate [ToJson α] (valid : Coherent store) (operations : List (Timestamp × Operation α)) :
    Coherent (operate store operations) ∧
      (operate store operations).recency = store.recency.operate operations := by
  induction operations generalizing store with
  | nil => exact ⟨valid, rfl⟩
  | cons entry rest ih =>
    obtain ⟨now, operation⟩ := entry
    have next := ih (valid.operation now operation)
    rwa [valid.recency_apply now operation] at next

/-- Whatever is asked of a store, its keys are those of the list of uses that is asked the same, in
the order of that list, and a reader gets what stands in the list. -/
theorem operate_keys_recency [ToJson α] (limits : Limits) (weigh : α → Nat) (operations : List (Timestamp × Operation α)) :
    let store := operate { limits, weigh } operations
    let recency := Recency.operate { limits, weigh } operations
    store.keys = recency.items.map (·.key) ∧ store.length = recency.items.length ∧
      store.totalSize = (recency.items.map (·.size)).sum ∧
      ∀ now key digest, (store.get now key digest).1 = (recency.serve? now key digest).map (·.value) := by
  have start : Coherent ({ limits, weigh } : Store α) := .initial limits weigh
  have empty : ({ limits, weigh } : Store α).recency = { limits, weigh } := by
    have listed := start.length_items
    exact Recency.ext rfl rfl (List.eq_nil_of_length_eq_zero listed)
  obtain ⟨valid, same⟩ := start.recency_operate operations
  rw [empty] at same
  dsimp only
  rw [← same]
  exact ⟨valid.keys_items.symm, valid.length_items.symm, valid.size_items.symm,
    fun now key digest => (valid.get_items now key digest).1⟩

end

end FreshDocs.Store
