import Std.Data.ExtTreeMap
import FreshDocs.Store.Limits
import FreshDocs.Digest.Basic
import FreshDocs.Json.Printer
import FreshDocs.Time.Timestamp
/-!
A store of values by key. An entry is served while it is no older than the time to live and
the digest asked for, if any, is the one it was stored with; a stale entry goes when it is read.
Whenever a limit is exceeded, the entries used longest ago make room. A use is a `set`, or a
`get` that serves.
-/

namespace FreshDocs

structure Store.Entry (α : Type) where
  value : α
  digest : Digest
  storedAt : Timestamp
  size : Nat
  /-- The place in the order of uses; a later use has a larger one. -/
  tick : Nat

/-- The entries by key and, apart from them, the keys by tick. -/
structure Store (α : Type) where
  limits : Store.Limits
  /-- The estimated size of a value. -/
  weigh : α → Nat
  entries : Std.ExtTreeMap String (Store.Entry α) := ∅
  order : Std.ExtTreeMap Nat String := ∅
  lastTick : Nat := 0
  totalSize : Nat := 0
  hits : Nat := 0
  misses : Nat := 0
  evictions : Nat := 0
  expirations : Nat := 0

namespace Store

variable {α : Type}

/-- An empty store that takes the length of a value's compact text for its size. -/
def empty [ToJson α] (limits : Limits) : Store α :=
  { limits, weigh := fun value => (toJson value).size }

def find? (store : Store α) (key : String) : Option (Entry α) :=
  store.entries[key]?

/-- Keys from the one used longest ago to the one used last. -/
def keys (store : Store α) : List String :=
  store.order.values

def length (store : Store α) : Nat :=
  store.entries.size

def isEmpty (store : Store α) : Bool :=
  store.length = 0

def isExpired (store : Store α) (now : Timestamp) (entry : Entry α) : Bool :=
  Timestamp.olderThan store.limits.ttl entry.storedAt now

def isOverfull (store : Store α) : Bool :=
  decide (store.limits.maxSize < store.totalSize) || decide (store.limits.maxEntries < store.length)

/-- Takes an entry out of both maps and out of the total. -/
def drop (store : Store α) (key : String) : Store α :=
  match store.find? key with
  | none => store
  | some entry =>
    { store with
      entries := store.entries.erase key
      order := store.order.erase entry.tick
      totalSize := store.totalSize - entry.size }

/-- Evicts the keys of a list one by one while the store holds too much. -/
def evictFrom : List String → Store α → Store α
  | [], store => store
  | key :: rest, store =>
    if store.isOverfull then
      evictFrom rest { store.drop key with evictions := store.evictions + 1 }
    else store

/-- Makes room down to the limits, and counts what had to go. -/
def evict (store : Store α) : Store α :=
  if store.isOverfull then store.evictFrom store.keys else store

/-- Puts an entry under a key that is free, as the one used last. -/
def put (store : Store α) (key : String) (value : α) (digest : Digest) (storedAt : Timestamp)
    (size : Nat) : Store α :=
  let tick := store.lastTick + 1
  { store with
    entries := store.entries.insert key { value, digest, storedAt, size, tick }
    order := store.order.insert tick key
    lastTick := tick
    totalSize := store.totalSize + size }

/-- Stores a value. Without a digest of its own it has that of its compact text. There always is such a text, so no
value is refused. -/
def set [ToJson α] (store : Store α) (now : Timestamp) (key : String) (value : α)
    (digest : Option Digest) : Store α :=
  let digest := digest.getD (Digest.ofText (toJson value).compact)
  ((store.drop key).put key value digest now (store.weigh value)).evict

/-- Marks an entry as the one used last. -/
def use (store : Store α) (key : String) (entry : Entry α) : Store α :=
  let tick := store.lastTick + 1
  { store with
    entries := store.entries.insert key { entry with tick }
    order := (store.order.erase entry.tick).insert tick key
    lastTick := tick }

/-- Reads a value. An entry that has expired or has another digest than the one asked for is
dropped and not served. -/
def get (store : Store α) (now : Timestamp) (key : String) (digest : Option Digest) :
    Option α × Store α :=
  match store.find? key with
  | none => (none, { store with misses := store.misses + 1 })
  | some entry =>
    let expired := store.isExpired now entry
    let mismatched := digest.any (· ≠ entry.digest)
    if expired || mismatched then
      let dropped := store.drop key
      (none,
        { dropped with
          misses := dropped.misses + 1
          expirations := dropped.expirations + (if expired then 1 else 0) })
    else
      let used := store.use key entry
      (some entry.value, { used with hits := used.hits + 1 })

/-- A value that has not expired, read without counting as a use. -/
def peek (store : Store α) (now : Timestamp) (key : String) : Option α :=
  match store.find? key with
  | some entry => if store.isExpired now entry then none else some entry.value
  | none => none

def has (store : Store α) (now : Timestamp) (key : String) : Bool :=
  (store.peek now key).isSome

/-- The digest of an entry, expired or not. -/
def digest? (store : Store α) (key : String) : Option Digest :=
  (store.find? key).map (·.digest)

def delete (store : Store α) (key : String) : Bool × Store α :=
  ((store.find? key).isSome, store.drop key)

def clear (store : Store α) : Store α :=
  { store with entries := ∅, order := ∅, totalSize := 0 }

def resize (store : Store α) (maxSize maxEntries : Option Nat) : Nat × Store α :=
  let limits :=
    { store.limits with
      maxSize := maxSize.getD store.limits.maxSize
      maxEntries := maxEntries.getD store.limits.maxEntries }
  let resized := { store with limits }.evict
  (resized.evictions - store.evictions, resized)

/-- The keys of all entries that have expired. -/
def expiredKeys (store : Store α) (now : Timestamp) : List String :=
  (store.entries.filter fun _ entry => store.isExpired now entry).keys

/-- Removes all entries that have expired, and counts them. -/
def sweep (store : Store α) (now : Timestamp) : Nat × Store α :=
  let expired := store.expiredKeys now
  let swept := expired.foldl drop store
  (expired.length, { swept with expirations := swept.expirations + expired.length })

def stats (store : Store α) : Stats :=
  let reads := store.hits + store.misses
  { entryCount := store.length
    totalSize := store.totalSize
    maxSize := store.limits.maxSize
    maxEntries := store.limits.maxEntries
    hits := store.hits
    misses := store.misses
    hitRate := if reads = 0 then 0.0 else Float.ofNat store.hits / Float.ofNat reads
    evictions := store.evictions
    expirations := store.expirations }

/-- The store as a log shows it, under a name. -/
def inspect (store : Store α) (name : String) : String :=
  Text.inspectRecord "ContentAddressableCache"
    [("name", Text.inspect name), ("entries", toString store.length),
     ("total_size", toString store.totalSize)] false

end Store
end FreshDocs
