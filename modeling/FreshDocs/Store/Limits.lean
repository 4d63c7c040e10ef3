import FreshDocs.Json.Fields
/-!
Limits of a store, and the figures it reports about itself.
-/

namespace FreshDocs.Store

/-- How much a store may hold, and for how long, in milliseconds from insertion. -/
structure Limits where
  maxSize : Nat := 64 * 1024 * 1024
  maxEntries : Nat := 5000
  ttl : Nat := 60 * 60 * 1000
  deriving DecidableEq

namespace Limits

def fieldNames : List String := ["max_size_bytes", "max_entries", "ttl_ms"]

def read? (base : Limits) (surplus : Bool) (value : Json) : Option Limits := do
  let fields ← Json.Fields.read? fieldNames surplus value
  let maxSize ← fields.getD? "max_size_bytes" Json.natural? base.maxSize
  let maxEntries ← fields.getD? "max_entries" Json.natural? base.maxEntries
  let ttl ← fields.getD? "ttl_ms" Json.natural? base.ttl
  return { maxSize, maxEntries, ttl }

instance : ToJson Limits where
  toJson limits := .object
    [("max_size_bytes", toJson limits.maxSize), ("max_entries", toJson limits.maxEntries),
     ("ttl_ms", toJson limits.ttl)]

end Limits

/-- Figures of a store at one point in time. The counters are cumulative. -/
structure Stats where
  entryCount : Nat := 0
  totalSize : Nat := 0
  maxSize : Nat := 0
  maxEntries : Nat := 0
  hits : Nat := 0
  misses : Nat := 0
  hitRate : Float := 0.0
  evictions : Nat := 0
  expirations : Nat := 0

namespace Stats

def fieldNames : List String :=
  ["entry_count", "total_size", "max_size", "max_entries", "hits", "misses", "hit_rate",
   "evictions", "expirations"]

def read? (value : Json) : Option Stats := do
  let fields ← Json.Fields.read? fieldNames true value
  let natural (name : String) := fields.getD? name Json.natural? 0
  return {
    entryCount := ← natural "entry_count"
    totalSize := ← natural "total_size"
    maxSize := ← natural "max_size"
    maxEntries := ← natural "max_entries"
    hits := ← natural "hits"
    misses := ← natural "misses"
    hitRate := ← fields.getD? "hit_rate" Json.real? 0.0
    evictions := ← natural "evictions"
    expirations := ← natural "expirations" }

instance : ToJson Stats where
  toJson stats := .object
    [("entry_count", toJson stats.entryCount), ("total_size", toJson stats.totalSize),
     ("max_size", toJson stats.maxSize), ("max_entries", toJson stats.maxEntries),
     ("hits", toJson stats.hits), ("misses", toJson stats.misses),
     ("hit_rate", toJson stats.hitRate), ("evictions", toJson stats.evictions),
     ("expirations", toJson stats.expirations)]

end Stats
end FreshDocs.Store
