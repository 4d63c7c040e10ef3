import FreshDocs.Proofs.SnapshotCoverage
import FreshDocs.Proofs.StoreReads

/-! What the counters of a store count while requests are made of it. Each `get` is a hit or a miss and nothing else is
either; an eviction is counted for each entry that has to make room, whether it was there before or was stored just now. -/

namespace FreshDocs.Store
open Std

variable {α : Type}

/-! ### Reads -/

section
variable [ToJson α]

def told {β : Type} (tells : Timestamp → Store α → Request α → List β) (store : Store α) :
    List (Timestamp × Request α) → List β
  | [] => []
  | (now, request) :: rest => tells now store request ++ told tells (request.apply now store) rest

def Request.isGet : Request α → Bool
  | .get .. => true
  | .set .. | .has _ | .peek _ | .delete _ | .clear | .resize .. | .sweep => false

def Request.readings (now : Timestamp) (store : Store α) : Request α → List (Option α)
  | .get key digest => [(store.get now key digest).1]
  | .set .. | .has _ | .peek _ | .delete _ | .clear | .resize .. | .sweep => []

theorem counts_apply (now : Timestamp) (store : Store α) (request : Request α) :
    Counts ((request.readings now store).countP Option.isSome) ((request.readings now store).countP Option.isNone) store
      (request.apply now store) := by
  cases request with
  | get key digest =>
    have counted := Counts.get store now key digest
    rw [Request.readings, Request.apply]
    cases read : (store.get now key digest).1 <;> simpa [read] using counted
  | set key value digest => exact .set store now key value digest
  | has | peek => exact .refl store
  | delete key => exact .drop store key
  | clear => exact .clear store
  | resize maxSize maxEntries =>
    have evicted := Counts.evict { store with limits := (store.recency.resize maxSize maxEntries).limits }
    exact ⟨evicted.hits, evicted.misses⟩
  | sweep => exact .sweep store now

theorem counts_run (store : Store α) (requests : List (Timestamp × Request α)) :
    Counts ((told Request.readings store requests).countP Option.isSome)
      ((told Request.readings store requests).countP Option.isNone) store (run store requests) := by
  induction requests generalizing store with
  | nil => exact .refl store
  | cons entry rest ih =>
    rw [told, List.countP_append, List.countP_append]
    exact (counts_apply entry.1 store entry.2).trans (ih _)

private theorem length_readings (store : Store α) (requests : List (Timestamp × Request α)) :
    (told Request.readings store requests).length = requests.countP (·.2.isGet) := by
  induction requests generalizing store with
  | nil => rfl
  | cons entry rest ih =>
    obtain ⟨now, request⟩ := entry
    rw [told, List.length_append, ih, List.countP_cons, Nat.add_comm]
    cases request <;> rfl

/-- Each `get` is counted once. -/
theorem gets_run (store : Store α) (requests : List (Timestamp × Request α)) :
    (run store requests).hits + (run store requests).misses =
      store.hits + store.misses + requests.countP (·.2.isGet) := by
  have counted := counts_run store requests
  have missed : (told Request.readings store requests).countP (fun reading => ¬reading.isSome) =
      (told Request.readings store requests).countP Option.isNone :=
    List.countP_congr fun reading _ => by cases reading <;> simp
  have parted := List.length_eq_countP_add_countP (l := told Request.readings store requests) Option.isSome
  rw [length_readings, missed] at parted
  rw [counted.hits, counted.misses, parted]
  omega

end

/-! ### Evictions and expirations -/

/-- So many evictions and expirations were counted from the first store to the second. -/
structure Losses (evicted expired : Nat) (before after : Store α) : Prop where
  evictions : after.evictions = before.evictions + evicted
  expirations : after.expirations = before.expirations + expired

namespace Losses

theorem refl (store : Store α) : Losses 0 0 store store :=
  ⟨rfl, rfl⟩

theorem trans {first second third : Store α} {evicted expired moreEvicted moreExpired : Nat}
    (one : Losses evicted expired first second) (two : Losses moreEvicted moreExpired second third) :
    Losses (evicted + moreEvicted) (expired + moreExpired) first third :=
  ⟨by rw [two.evictions, one.evictions, Nat.add_assoc], by rw [two.expirations, one.expirations, Nat.add_assoc]⟩

theorem drop (store : Store α) (key : String) : Losses 0 0 store (store.drop key) := by
  unfold Store.drop
  split <;> exact ⟨rfl, rfl⟩

theorem drops (keys : List String) (store : Store α) : Losses 0 0 store (keys.foldl Store.drop store) := by
  induction keys generalizing store with
  | nil => exact refl store
  | cons key rest ih => exact (drop store key).trans (ih (store.drop key))

theorem sweep (store : Store α) (now : Timestamp) :
    Losses 0 (store.expiredKeys now).length store (store.sweep now).2 :=
  have dropped := drops (store.expiredKeys now) store
  ⟨dropped.evictions, congrArg (· + _) dropped.expirations⟩

end Losses

theorem length_drop {store : Store α} {key : String} (present : (store.find? key).isSome) :
    (store.drop key).length + 1 = store.length := by
  obtain ⟨entry, found⟩ := Option.isSome_iff_exists.mp present
  have split := (SortedMap.toList_perm_erase found).length_eq
  rw [List.length_cons, ExtTreeMap.length_toList, ExtTreeMap.length_toList] at split
  rw [drop_of_present found]
  exact split.symm

/-- What eviction takes away it counts, as long as it only meets keys that are there. -/
theorem evictFrom_balance {keys : List String} {store : Store α} (distinct : keys.Nodup)
    (present : ∀ key ∈ keys, (store.find? key).isSome) :
    (store.evictFrom keys).length + (store.evictFrom keys).evictions = store.length + store.evictions := by
  induction keys generalizing store with
  | nil => rfl
  | cons key rest ih =>
    obtain ⟨fresh, later⟩ := List.nodup_cons.mp distinct
    obtain ⟨first, others⟩ := List.forall_mem_cons.mp present
    rw [evictFrom]
    split
    · have left : ∀ other ∈ rest, ((store.drop key).find? other).isSome := by
        intro other member
        have differ : key ≠ other := fun same => fresh (same ▸ member)
        rw [find?_drop, if_neg differ]
        exact others other member
      have fewer := length_drop first
      have balanced := @ih { store.drop key with evictions := store.evictions + 1 } later left
      calc
        _ = (store.drop key).length + (store.evictions + 1) := balanced
        _ = store.length + store.evictions := by omega
    · rfl

private theorem Coherent.evict_balance {store : Store α} (valid : Coherent store) :
    store.evict.length + store.evict.evictions = store.length + store.evictions := by
  unfold evict
  split
  · exact evictFrom_balance valid.keys_nodup fun key listed => valid.mem_keys_iff.mp listed
  · rfl

/-- Room is made by as many evictions as there are items that have to go. -/
theorem Coherent.evictions_evict {store : Store α} (valid : Coherent store) :
    store.evict.evictions = store.evictions + (store.limits.victims store.recency.items).length := by
  have balanced := valid.evict_balance
  have whole := congrArg List.length (store.limits.victims_append_trim store.recency.items)
  rw [List.length_append, ← valid.items_evict, valid.length_items, (valid.steps (steps_evict store)).length_items] at whole
  omega

private theorem expirations_evictFrom (keys : List String) (store : Store α) :
    (store.evictFrom keys).expirations = store.expirations := by
  induction keys generalizing store with
  | nil => rfl
  | cons key rest ih =>
    rw [evictFrom]
    split
    · exact (ih _).trans (Losses.drop store key).expirations
    · rfl

theorem Coherent.losses_evict {store : Store α} (valid : Coherent store) :
    Losses (store.limits.victims store.recency.items).length 0 store store.evict := by
  refine ⟨valid.evictions_evict, ?_⟩
  unfold evict
  split
  · exact expirations_evictFrom _ _
  · rfl

theorem Coherent.length_keys {store : Store α} (valid : Coherent store) : store.keys.length = store.length := by
  rw [← valid.keys_items, List.length_map, valid.length_items]

/-- Where nothing was evicted, the limits held already. -/
theorem Coherent.hold_of_spared {store : Store α} (valid : Coherent store)
    (spared : store.evict.evictions = store.evictions) : store.limits.Hold store.recency.items := by
  have none_goes : store.limits.victims store.recency.items = [] := by
    have counted := valid.evictions_evict
    exact List.eq_nil_of_length_eq_zero (by omega)
  have all := store.limits.victims_append_trim store.recency.items
  rw [none_goes, List.nil_append] at all
  exact all ▸ Nat.find_spec (store.limits.exists_hold store.recency.items)

/-! ### Before room is made -/

section
variable [ToJson α] {store : Store α} (valid : Coherent store)

/-- The store with a value put in, as `set` leaves it before it makes room. -/
def stored (store : Store α) (now : Timestamp) (key : String) (value : α) (digest : Option Digest) : Store α :=
  (store.drop key).put key value (digest.getD (Digest.ofText (toJson value).compact)) now (store.weigh value)

theorem limits_stored (store : Store α) (now : Timestamp) (key : String) (value : α) (digest : Option Digest) :
    (store.stored now key value digest).limits = store.limits :=
  (Retains.drop store key).limits

include valid

theorem Coherent.stored (now : Timestamp) (key : String) (value : α) (digest : Option Digest) :
    Coherent (store.stored now key value digest) :=
  (valid.drop key).put key value _ now (store.weigh value) (by simp [find?_drop])

theorem Coherent.items_stored (now : Timestamp) (key : String) (value : α) (digest : Option Digest) :
    (store.stored now key value digest).recency.items =
      store.recency.without key ++ [.new store.weigh now key value digest] := by
  have free : (store.drop key).find? key = none := by simp [find?_drop]
  rw [Store.stored, (valid.drop key).items_put _ _ _ _ free, valid.items_drop]
  rfl

omit [ToJson α] in
theorem Coherent.relimited (limits : Limits) : Coherent { store with limits } :=
  ⟨valid.inverse, valid.ticks, valid.total⟩

end

/-! ### Expired entries -/

def isStale (store : Store α) (time : Timestamp) (key : String) : Bool :=
  (store.find? key).any (store.isExpired time)

private theorem mem_expiredKeys_iff {store : Store α} {time : Timestamp} {key : String} :
    key ∈ store.expiredKeys time ↔ store.isStale time key = true := by
  rw [expiredKeys, ExtTreeMap.mem_keys, ExtTreeMap.mem_iff_isSome_getElem?, ExtTreeMap.getElem?_filter', isStale, find?]
  cases store.entries[key]? <;> simp [Option.filter]

theorem Coherent.expiredKeys_perm {store : Store α} (valid : Coherent store) (time : Timestamp) :
    (store.expiredKeys time).Perm (store.keys.filter (store.isStale time)) := by
  have distinct : (store.expiredKeys time).Nodup := ExtTreeMap.nodup_keys
  apply (List.perm_ext_iff_of_nodup distinct (valid.keys_nodup.filter _)).mpr
  intro key
  rw [mem_expiredKeys_iff, List.mem_filter, valid.mem_keys_iff]
  refine (and_iff_right_of_imp fun stale => ?_).symm
  obtain ⟨entry, found, -⟩ := (Option.any_eq_true _ _).mp stale
  exact Option.isSome_of_eq_some found

theorem Coherent.keys_sweep {store : Store α} (valid : Coherent store) (time : Timestamp) :
    (store.sweep time).2.keys = store.keys.filter (!store.isStale time ·) := by
  refine (valid.keys_drops _).trans (List.filter_congr fun key _ => ?_)
  simp only [mem_expiredKeys_iff]
  cases store.isStale time key <;> rfl

end FreshDocs.Store
