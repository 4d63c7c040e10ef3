import Std.Data.ExtTreeMap
import Std.Data.ExtTreeSet
/-!
What was made from what. Each path has the set of paths it depends on, and an index leads
back from a path to those that depend on it. Cycles are allowed. The cascade from a path lists
all that depend on it, directly or not, the nearest first and each once.
-/

namespace FreshDocs

/-- Paths in ascending order, each once. -/
abbrev PathSet := Std.ExtTreeSet String

structure Dependencies where
  /-- The paths that a path depends on. -/
  forward : Std.ExtTreeMap String PathSet := ∅
  /-- The paths that depend on a path. -/
  reverse : Std.ExtTreeMap String PathSet := ∅

namespace Dependencies

def empty : Dependencies := {}

def setAt (index : Std.ExtTreeMap String PathSet) (path : String) : PathSet :=
  index[path]?.getD ∅

def dependencies (graph : Dependencies) (path : String) : List String :=
  (setAt graph.forward path).toList

def dependents (graph : Dependencies) (path : String) : List String :=
  (setAt graph.reverse path).toList

def link (path : String) (reverse : Std.ExtTreeMap String PathSet) (target : String) :
    Std.ExtTreeMap String PathSet :=
  reverse.insert target ((setAt reverse target).insert path)

/-- Takes `path` from those that depend on `target`; nothing is kept for a target without any. -/
def unlink (path : String) (reverse : Std.ExtTreeMap String PathSet) (target : String) :
    Std.ExtTreeMap String PathSet :=
  let left := (setAt reverse target).erase path
  if left.isEmpty then reverse.erase target else reverse.insert target left

/-- Drops all that is known of what `path` depends on. -/
def forget (graph : Dependencies) (path : String) : Dependencies :=
  { forward := graph.forward.erase path
    reverse := (graph.dependencies path).foldl (unlink path) graph.reverse }

/-- Records what `path` depends on, in place of what was known. No path depends on itself. -/
def record (graph : Dependencies) (path : String) (targets : List String) : Dependencies :=
  let cleared := graph.forget path
  let set : PathSet := .ofList (targets.filter (· ≠ path))
  if set.isEmpty then cleared
  else
    { forward := cleared.forward.insert path set
      reverse := set.toList.foldl (link path) cleared.reverse }

/-- The number of paths that depend on anything. -/
def nodeCount (graph : Dependencies) : Nat :=
  graph.forward.size

/-- The number of pairs of a path and one that it depends on. -/
def edgeCount (graph : Dependencies) : Nat :=
  graph.forward.values.foldl (· + ·.size) 0

/-- Visits the queue from its front, each path once, and queues those that depend on it behind
the rest. -/
def visit (graph : Dependencies) : (fuel : Nat) → (queue visited : List String) → List String
  | 0, _, visited | _, [], visited => visited
  | fuel + 1, path :: queue, visited =>
    if visited.contains path then visit graph fuel queue visited
    else
      let visited := visited ++ [path]
      visit graph fuel (queue ++ (graph.dependents path).filter (!visited.contains ·)) visited

/-- `start`, and after it every path that depends on it, breadth first. A path is put into the
queue once for each pair that it depends by, which bounds the walk. -/
def cascade (graph : Dependencies) (start : String) : List String :=
  graph.visit (graph.reverse.values.foldl (· + ·.size) 1) [start] []

end Dependencies
end FreshDocs
