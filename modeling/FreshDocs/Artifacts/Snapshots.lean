import FreshDocs.Artifacts.Basic
/-!
Aggregates over whole projects. A snapshot lists the digest of every file it was made from and
is served only while all of them are those of the live files; the first that is not drops the
snapshot, since an aggregate that is stale in part is never right.
-/

namespace FreshDocs

/-- Digests by path key, in ascending order of the keys. -/
abbrev Manifest := Std.ExtTreeMap String Digest

instance : ToJson Manifest where
  toJson manifest := .object (manifest.toList.map fun (key, digest) => (key, toJson digest))

structure Snapshot where
  project : Path
  aggregate : Json
  manifest : Manifest
  updatedAt : Timestamp

instance : ToJson Snapshot where
  toJson snapshot := .object
    [("project_path", toJson snapshot.project), ("analysis", snapshot.aggregate),
     ("manifest", toJson snapshot.manifest), ("updated_at", toJson snapshot.updatedAt)]

/-- The snapshots of projects by the key of their root. -/
structure Snapshots where
  store : Store Snapshot

namespace Snapshots

def defaultLimits : Store.Limits :=
  { maxSize := 32 * 1024 * 1024, maxEntries := 50 }

def empty (limits : Store.Limits) : Snapshots :=
  ⟨Store.empty limits⟩

def manifestDigest (manifest : Manifest) : Digest :=
  Digest.ofText (toJson manifest).compact

/-- Stores the aggregate of a project with the manifest it was made from. -/
def set (now : Timestamp) (cache : Snapshots) (project : Path) (aggregate : Json)
    (manifest : Manifest) : Snapshot × Snapshots :=
  let snapshot := { project, aggregate, manifest, updatedAt := now }
  (snapshot, ⟨cache.store.set now project.key snapshot (some (manifestDigest manifest))⟩)

/-- Whether every file of a manifest is live with its digest; the first that differs or cannot
be read decides. -/
def verify (files : Files) : List (String × Digest) → Except StoreError Bool
  | [] => .ok true
  | (key, digest) :: rest =>
    match FileStamp.digestOf files ⟨key⟩ with
    | .error error => .error error
    | .ok live => if live = some digest then verify files rest else .ok false

/-- Reads from the store, which counts a hit or a miss. -/
def lookup (now : Timestamp) (cache : Snapshots) (key : String) (digest : Option Digest) :
    Option Snapshot × Snapshots :=
  let (found, store) := cache.store.get now key digest
  (found, ⟨store⟩)

/-- The snapshot of a project, if every file of its manifest is unchanged. -/
def get (files : Files) (now : Timestamp) (cache : Snapshots) (project : Path) :
    Except StoreError (Option Snapshot) × Snapshots :=
  let key := project.key
  match cache.store.peek now key with
  | none =>
    let (found, cache) := cache.lookup now key none
    (.ok found, cache)
  | some snapshot =>
    match verify files snapshot.manifest.toList with
    | .error error => (.error error, cache)
    | .ok false =>
      let (found, cache) := lookup now ⟨(cache.store.delete key).2⟩ key none
      (.ok found, cache)
    | .ok true =>
      let (found, cache) := cache.lookup now key (some (manifestDigest snapshot.manifest))
      (.ok found, cache)

/-- Adds the digests of files to a manifest; files that do not exist are left out. -/
def extendManifest (files : Files) : List Path → Manifest → Except StoreError Manifest
  | [], manifest => .ok manifest
  | path :: rest, manifest =>
    match FileStamp.digestOf files ⟨path.key⟩ with
    | .error error => .error error
    | .ok none => extendManifest files rest manifest
    | .ok (some digest) => extendManifest files rest (manifest.insert path.key digest)

def buildManifest (files : Files) (paths : List Path) : Except StoreError Manifest :=
  extendManifest files paths ∅

/-- Drops the snapshot of a project, and says whether there was one. -/
def invalidate (cache : Snapshots) (project : Path) : Bool × Snapshots :=
  let (removed, store) := cache.store.delete project.key
  (removed, ⟨store⟩)

/-- Whether some of `paths` lies in the project under `key` without standing in its manifest.
A manifest lists the files there were when it was made, so a new one shows only here. -/
def misses (paths : List String) (key : String) (snapshot : Snapshot) : Bool :=
  paths.any fun path =>
    (Path.mk path).isWithin ⟨key⟩ && !snapshot.manifest.contains path

/-- Drops those of the listed snapshots that have not expired and miss one of `paths`. -/
def dropMissing (now : Timestamp) (paths : List String) :
    List String → Snapshots → Nat × Snapshots
  | [], cache => (0, cache)
  | key :: rest, cache =>
    if (cache.store.peek now key).any (misses paths key) then
      let (count, cache) := dropMissing now paths rest ⟨(cache.store.delete key).2⟩
      (count + 1, cache)
    else dropMissing now paths rest cache

/-- Drops the snapshots of projects that contain one of `paths` but do not list it. -/
def invalidateUncovered (now : Timestamp) (cache : Snapshots) (paths : List String) :
    Nat × Snapshots :=
  dropMissing now paths cache.store.keys cache

def clear (cache : Snapshots) : Snapshots :=
  ⟨cache.store.clear⟩

def sweep (now : Timestamp) (cache : Snapshots) : Nat × Snapshots :=
  let (count, store) := cache.store.sweep now
  (count, ⟨store⟩)

def length (cache : Snapshots) : Nat :=
  cache.store.length

def isEmpty (cache : Snapshots) : Bool :=
  cache.store.isEmpty

def stats (cache : Snapshots) : Store.Stats :=
  cache.store.stats

end Snapshots
end FreshDocs
