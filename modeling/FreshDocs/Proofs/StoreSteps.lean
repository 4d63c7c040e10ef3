import FreshDocs.Store.Basic
import Mathlib.Logic.Relation

/-! Everything that can be asked of a store, and the few elementary changes that each request is
made of. What holds of every elementary change holds of every request, and in every state that a
request passes through on its way. -/

namespace FreshDocs.Store
open Std

variable {α : Type}

inductive Request (α : Type) where
  | set (key : String) (value : α) (digest : Option Digest)
  | get (key : String) (digest : Option Digest)
  | has (key : String)
  | peek (key : String)
  | delete (key : String)
  | clear
  | resize (maxSize maxEntries : Option Nat)
  | sweep

def Request.apply [ToJson α] (now : Timestamp) (store : Store α) : Request α → Store α
  | .set key value digest => store.set now key value digest
  | .get key digest => (store.get now key digest).2
  | .has _ | .peek _ => store
  | .delete key => (store.delete key).2
  | .clear => store.clear
  | .resize maxSize maxEntries => (store.resize maxSize maxEntries).2
  | .sweep => (store.sweep now).2

def run [ToJson α] (store : Store α) : List (Timestamp × Request α) → Store α
  | [] => store
  | (now, request) :: rest => run (request.apply now store) rest

/-- The elementary changes of a store. -/
inductive Step : Store α → Store α → Prop where
  | drop (store : Store α) (key : String) : Step store (store.drop key)
  | put (store : Store α) (key : String) (value : α) (digest : Digest) (storedAt : Timestamp)
      (size : Nat) (free : store.find? key = none) :
      Step store (store.put key value digest storedAt size)
  | use (store : Store α) (key : String) (entry : Entry α) (present : store.find? key = some entry) :
      Step store (store.use key entry)
  | clear (store : Store α) : Step store store.clear
  /-- Limits and counters change, and nothing else does. -/
  | count (store : Store α) (limits : Limits) (hits misses evictions expirations : Nat) :
      Step store { store with limits, hits, misses, evictions, expirations }

abbrev Steps : Store α → Store α → Prop := Relation.ReflTransGen Step

/-! ### Entries after an elementary change -/

theorem find?_drop (store : Store α) (key other : String) :
    (store.drop key).find? other = if key = other then none else store.find? other := by
  unfold drop
  split
  next absent =>
    split
    next same => rw [← same, absent]
    next => rfl
  next => simp [find?, ExtTreeMap.getElem?_erase]

theorem find?_put (store : Store α) (key : String) (value : α) (digest : Digest)
    (storedAt : Timestamp) (size : Nat) (other : String) :
    (store.put key value digest storedAt size).find? other =
      if key = other then some { value, digest, storedAt, size, tick := store.lastTick + 1 }
      else store.find? other := by
  simp [put, find?, ExtTreeMap.getElem?_insert]

theorem find?_use (store : Store α) (key : String) (entry : Entry α) (other : String) :
    (store.use key entry).find? other =
      if key = other then some { entry with tick := store.lastTick + 1 } else store.find? other := by
  simp [use, find?, ExtTreeMap.getElem?_insert]

theorem drop_of_present {store : Store α} {key : String} {entry : Entry α}
    (present : store.find? key = some entry) :
    store.drop key =
      { store with
        entries := store.entries.erase key
        order := store.order.erase entry.tick
        totalSize := store.totalSize - entry.size } := by
  simp only [drop, present]

theorem drop_of_absent {store : Store α} {key : String} (absent : store.find? key = none) :
    store.drop key = store := by
  simp only [drop, absent]

/-! ### Requests are made of elementary changes -/

theorem steps_drops (keys : List String) (store : Store α) : Steps store (keys.foldl drop store) := by
  induction keys generalizing store with
  | nil => exact .refl
  | cons key rest ih => exact .head (.drop store key) (ih (store.drop key))

private theorem steps_evictFrom (keys : List String) (store : Store α) : Steps store (store.evictFrom keys) := by
  induction keys generalizing store with
  | nil => exact .refl
  | cons key rest ih =>
    rw [evictFrom]
    split
    · have dropped : Steps store { store.drop key with evictions := store.evictions + 1 } :=
        .tail (.single (.drop store key)) (.count (store.drop key) _ _ _ _ _)
      exact dropped.trans (ih _)
    · exact .refl

theorem steps_evict (store : Store α) : Steps store store.evict := by
  unfold evict
  split
  · exact steps_evictFrom _ _
  · exact .refl

theorem steps_set [ToJson α] (store : Store α) (now : Timestamp) (key : String) (value : α)
    (digest : Option Digest) : Steps store (store.set now key value digest) := by
  have free : (store.drop key).find? key = none := by simp [find?_drop]
  exact (Relation.ReflTransGen.single (.drop store key)).trans
    (.head (.put (store.drop key) key _ _ _ _ free) (steps_evict _))

theorem steps_get (store : Store α) (now : Timestamp) (key : String) (digest : Option Digest) :
    Steps store (store.get now key digest).2 := by
  unfold get
  split
  next => exact .single (.count store _ _ _ _ _)
  next entry present =>
    dsimp only
    split
    · exact .tail (.single (.drop store key)) (.count (store.drop key) _ _ _ _ _)
    · exact .tail (.single (.use store key entry present)) (.count (store.use key entry) _ _ _ _ _)

private theorem steps_resize (store : Store α) (maxSize maxEntries : Option Nat) :
    Steps store (store.resize maxSize maxEntries).2 :=
  .head (.count store _ _ _ _ _) (steps_evict _)

theorem steps_sweep (store : Store α) (now : Timestamp) : Steps store (store.sweep now).2 :=
  .tail (steps_drops _ store) (.count _ _ _ _ _ _)

theorem steps_apply [ToJson α] (now : Timestamp) (store : Store α) (request : Request α) :
    Steps store (request.apply now store) := by
  cases request with
  | set key value digest => exact steps_set store now key value digest
  | get key digest => exact steps_get store now key digest
  | has | peek => exact .refl
  | delete key => exact .single (.drop store key)
  | clear => exact .single (.clear store)
  | resize maxSize maxEntries => exact steps_resize store maxSize maxEntries
  | sweep => exact steps_sweep store now

end FreshDocs.Store
