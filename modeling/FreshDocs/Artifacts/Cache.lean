import FreshDocs.Artifacts.Basic
/-!
Analyses and compiled templates, each checked against the live file whenever it is read. When
an analysis turns out to be stale because its file changed or went away, everything that
depends on the file goes with it; one that has expired, or whose file was only touched, goes
alone.
-/

namespace FreshDocs

structure Artifacts where
  analyses : Store Analysis
  templates : Store Template
  graph : Dependencies := {}

namespace Artifacts

/-- Limits of the two stores. -/
structure Limits where
  analyses : Store.Limits := {}
  templates : Store.Limits := { maxSize := 8 * 1024 * 1024, maxEntries := 500 }
  deriving DecidableEq

namespace Limits

def fieldNames : List String := ["analyses", "templates"]

/-- Reads limits. A store that is not mentioned keeps its own defaults; one that is mentioned
in part takes the rest from the general ones. -/
def read? (surplus : Bool) (value : Json) : Option Limits := do
  let fields ← Json.Fields.read? fieldNames surplus value
  let base : Limits := {}
  let analyses ← fields.getD? "analyses" (Store.Limits.read? {} surplus) base.analyses
  let templates ← fields.getD? "templates" (Store.Limits.read? {} surplus) base.templates
  return { analyses, templates }

instance : ToJson Limits where
  toJson limits := .object
    [("analyses", toJson limits.analyses), ("templates", toJson limits.templates)]

end Limits

structure Stats where
  analyses : Store.Stats := {}
  templates : Store.Stats := {}
  trackedFiles : Nat := 0
  dependencyEdges : Nat := 0

instance : ToJson Stats where
  toJson stats := .object
    [("analyses", toJson stats.analyses), ("templates", toJson stats.templates),
     ("tracked_files", toJson stats.trackedFiles),
     ("dependency_edges", toJson stats.dependencyEdges)]

def empty (limits : Limits) : Artifacts :=
  { analyses := Store.empty limits.analyses, templates := Store.empty limits.templates }

/-- Drops the analyses of a list of keys, and names those that were there. -/
def dropAll : List String → Artifacts → List String × Artifacts
  | [], cache => ([], cache)
  | key :: rest, cache =>
    let (present, analyses) := cache.analyses.delete key
    let (removed, cache) := dropAll rest { cache with analyses }
    (if present then key :: removed else removed, cache)

/-- Drops the analysis of `path` and all that depend on it. -/
def invalidate (cache : Artifacts) (path : Path) : List String × Artifacts :=
  dropAll (cache.graph.cascade path.key) cache

/-- Does so for one path after the other. -/
def invalidateAll : List Path → Artifacts → List String × Artifacts
  | [], cache => ([], cache)
  | path :: rest, cache =>
    let (removed, cache) := cache.invalidate path
    let (others, cache) := invalidateAll rest cache
    (removed ++ others, cache)

def remove (cache : Artifacts) (path : Path) : List String × Artifacts :=
  let (removed, cache) := cache.invalidate path
  (removed,
    { cache with
      templates := (cache.templates.delete path.key).2
      graph := cache.graph.forget path.key })

/-- Stores an analysis with what it depends on, unless the file has gone or changed since. -/
def set (files : Files) (now : Timestamp) (cache : Artifacts) (path : Path) (analysis : Analysis)
    (dependencies : List String) : Except StoreError Bool × Artifacts :=
  match FileStamp.read files path with
  | .error error => (.error error, cache)
  | .ok none => (.ok false, cache)
  | .ok (some live) =>
    if live.digest ≠ analysis.stamp.digest then (.ok false, cache)
    else
      let stored := { analysis with dependencies }
      (.ok true,
        { cache with
          analyses := cache.analyses.set now path.key stored (some analysis.stamp.digest)
          graph := cache.graph.record path.key dependencies })

/-- Reads from the store of analyses, which counts a hit or a miss. -/
def lookup (now : Timestamp) (cache : Artifacts) (key : String) (digest : Option Digest) :
    Option Analysis × Artifacts :=
  let (found, analyses) := cache.analyses.get now key digest
  (found, { cache with analyses })

/-- The analysis of `path`, if it is still that of the live file. -/
def get (files : Files) (now : Timestamp) (cache : Artifacts) (path : Path) :
    Except StoreError (Option Analysis) × Artifacts :=
  let key := path.key
  let stored := cache.analyses.digest? key
  match FileStamp.read files path with
  | .error error => (.error error, cache)
  | .ok none =>
    let cache := if stored.isSome then (cache.invalidate path).2 else cache
    let (found, cache) := cache.lookup now key none
    (.ok found, cache)
  | .ok (some live) =>
    match cache.lookup now key (some live.digest) with
    | (some analysis, cache) =>
      if analysis.stamp.agrees live then (.ok (some analysis), cache)
      else (.ok none, { cache with analyses := (cache.analyses.delete key).2 })
    | (none, cache) =>
      if stored.any (· ≠ live.digest) then (.ok none, (cache.invalidate path).2)
      else (.ok none, cache)

def setTemplate (files : Files) (now : Timestamp) (cache : Artifacts) (path : Path)
    (template : Template) : Except StoreError Bool × Artifacts :=
  match FileStamp.read files path with
  | .error error => (.error error, cache)
  | .ok none => (.ok false, cache)
  | .ok (some _) =>
    (.ok true,
      { cache with
        templates := cache.templates.set now path.key template (some template.sourceDigest) })

/-- The compiled template of `path`, if its source is unchanged. -/
def getTemplate (files : Files) (now : Timestamp) (cache : Artifacts) (path : Path) :
    Except StoreError (Option Template) × Artifacts :=
  let key := path.key
  let read (templates : Store Template) (digest : Option Digest) :=
    let (found, templates) := templates.get now key digest
    (Except.ok found, { cache with templates })
  match FileStamp.read files path with
  | .error error => (.error error, cache)
  | .ok none => read (cache.templates.delete key).2 none
  | .ok (some live) => read cache.templates (some live.digest)

/-- Drops one compiled template; analyses stay. -/
def invalidateTemplate (cache : Artifacts) (path : Path) : Bool × Artifacts :=
  let (removed, templates) := cache.templates.delete path.key
  (removed, { cache with templates })

/-- Drops several compiled templates, and counts those that were there. -/
def invalidateTemplates : List Path → Artifacts → Nat × Artifacts
  | [], cache => (0, cache)
  | path :: rest, cache =>
    let (removed, cache) := cache.invalidateTemplate path
    let (count, cache) := invalidateTemplates rest cache
    (if removed then count + 1 else count, cache)

def dependentsOf (cache : Artifacts) (path : Path) : List String :=
  cache.graph.dependents path.key

def dependenciesOf (cache : Artifacts) (path : Path) : List String :=
  cache.graph.dependencies path.key

/-- Whether there is an analysis that has not expired; the file is not looked at. -/
def contains (now : Timestamp) (cache : Artifacts) (path : Path) : Bool :=
  cache.analyses.has now path.key

/-- Keys of the analyses, the one used longest ago first. -/
def cachedPaths (cache : Artifacts) : List String :=
  cache.analyses.keys

def length (cache : Artifacts) : Nat :=
  cache.analyses.length

def isEmpty (cache : Artifacts) : Bool :=
  cache.analyses.isEmpty

/-- Removes expired analyses and templates, and counts them. -/
def sweep (now : Timestamp) (cache : Artifacts) : Nat × Artifacts :=
  let (fromAnalyses, analyses) := cache.analyses.sweep now
  let (fromTemplates, templates) := cache.templates.sweep now
  (fromAnalyses + fromTemplates, { cache with analyses, templates })

def clear (cache : Artifacts) : Artifacts :=
  { analyses := cache.analyses.clear, templates := cache.templates.clear, graph := {} }

def stats (cache : Artifacts) : Stats :=
  { analyses := cache.analyses.stats
    templates := cache.templates.stats
    trackedFiles := cache.graph.nodeCount
    dependencyEdges := cache.graph.edgeCount }

end Artifacts
end FreshDocs
