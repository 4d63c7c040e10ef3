import FreshDocs.Proofs.ArtifactReads
import FreshDocs.Proofs.FailedRequests
import FreshDocs.Proofs.SnapshotCoverage

/-! What reading a snapshot gives, and what it takes away. The files of its manifest are checked in the order of their
keys, and the first one that is not as the manifest has it decides. -/

namespace FreshDocs
namespace Snapshots

/-! ### The check of a manifest -/

/-- There is such a file, and it has this digest. -/
def Live (files : Files) (file : String) (digest : Digest) : Prop :=
  FileStamp.digestOf files ⟨file⟩ = .ok (some digest)

instance (files : Files) (file : String) (digest : Digest) : Decidable (Live files file digest) :=
  inferInstanceAs (Decidable (_ = _))

/-- All files of the manifest are found with the digests that the manifest has. -/
def Intact (files : Files) (manifest : Manifest) : Prop :=
  ∀ file digest, manifest[file]? = some digest → Live files file digest

/-- The file is the first of the manifest that is not found with the digest that the manifest has. -/
structure FirstStale (files : Files) (manifest : Manifest) (file : String) (digest : Digest) : Prop where
  listed : manifest[file]? = some digest
  stale : ¬Live files file digest
  before : ∀ other held, manifest[other]? = some held → other < file → Live files other held

section
variable {files : Files}

private theorem verify_cons_of_stale {file : String} {digest : Digest} (stale : ¬Live files file digest)
    (rest : List (String × Digest)) :
    verify files ((file, digest) :: rest) = (FileStamp.digestOf files ⟨file⟩).map fun _ => false := by
  unfold Live at stale
  rw [verify]
  split
  next error read => rw [read]; rfl
  next found read =>
    have differs : found ≠ some digest := fun same => stale (same ▸ read)
    rw [if_neg differs, read]
    rfl

variable {manifest : Manifest}

private theorem verify_iff_intact : verify files manifest.toList = .ok true ↔ Intact files manifest := by
  constructor
  · intro checked file digest listed
    exact verify_true checked (file, digest) (Std.ExtTreeMap.mem_toList_iff_getElem?_eq_some.mpr listed)
  · intro intact
    have passed : ∀ entry ∈ manifest.toList, Live files entry.1 entry.2 := fun entry member =>
      intact entry.1 entry.2 (Std.ExtTreeMap.mem_toList_iff_getElem?_eq_some.mp member)
    rw [← List.append_nil manifest.toList, verify_append passed, verify]

private theorem firstStale_iff_split {file : String} {digest : Digest} : FirstStale files manifest file digest ↔
    ∃ checked rest, manifest.toList = checked ++ (file, digest) :: rest ∧
      (∀ entry ∈ checked, Live files entry.1 entry.2) ∧ ¬Live files file digest := by
  have listed {other : String} {held : Digest} : (other, held) ∈ manifest.toList ↔ manifest[other]? = some held :=
    Std.ExtTreeMap.mem_toList_iff_getElem?_eq_some
  have sorted : manifest.toList.Pairwise fun one two => one.1 < two.1 :=
    manifest.ordered_keys_toList.imp fun lower => compareOfLessAndEq_eq_lt.mp lower
  constructor
  · intro first
    obtain ⟨checked, rest, split⟩ := List.append_of_mem (listed.mpr first.listed)
    refine ⟨checked, rest, split, fun entry earlier => ?_, first.stale⟩
    have held : entry ∈ manifest.toList := split ▸ List.mem_append_left _ earlier
    rw [split, List.pairwise_append] at sorted
    exact first.before entry.1 entry.2 (listed.mp held) (sorted.2.2 entry earlier (file, digest) List.mem_cons_self)
  · intro ⟨checked, rest, split, passed, stale⟩
    refine ⟨listed.mp (split ▸ List.mem_append_right _ List.mem_cons_self), stale, fun other held there lower => ?_⟩
    have member : (other, held) ∈ checked ++ (file, digest) :: rest := split ▸ listed.mpr there
    rw [split, List.pairwise_append, List.pairwise_cons] at sorted
    rw [List.mem_append, List.mem_cons] at member
    obtain earlier | here | later := member
    · exact passed (other, held) earlier
    · cases here
      exact absurd lower (String.lt_irrefl _)
    · exact absurd lower (String.lt_asymm (sorted.2.1.1 (other, held) later))

theorem FirstStale.verify {file : String} {digest : Digest} (first : FirstStale files manifest file digest) :
    verify files manifest.toList = (FileStamp.digestOf files ⟨file⟩).map fun _ => false := by
  obtain ⟨checked, rest, split, passed, stale⟩ := firstStale_iff_split.mp first
  rw [split, verify_append passed, verify_cons_of_stale stale]

private theorem intact_or_first (files : Files) (manifest : Manifest) :
    Intact files manifest ∨ ∃ file digest, FirstStale files manifest file digest := by
  cases searched : manifest.toList.find? fun entry => ¬Live files entry.1 entry.2 with
  | none =>
    left
    intro file digest listed
    have member := Std.ExtTreeMap.mem_toList_iff_getElem?_eq_some.mpr listed
    simpa using List.find?_eq_none.mp searched (file, digest) member
  | some entry =>
    obtain ⟨stale, checked, rest, split, passed⟩ := List.find?_eq_some_iff_append.mp searched
    have first : FirstStale files manifest entry.1 entry.2 :=
      firstStale_iff_split.mpr ⟨checked, rest, split, by simpa using passed, by simpa using stale⟩
    exact .inr ⟨entry.1, entry.2, first⟩

end

/-! ### What was given last -/

def Request.given? (now : Timestamp) (key : String) : Request → Option Snapshot
  | .set project aggregate manifest =>
    if project.key = key then some { project, aggregate, manifest, updatedAt := now } else none
  | _ => none

def lastGiven? (requests : List (Timestamp × Request)) (key : String) : Option Snapshot :=
  requests.reverse.findSome? fun entry => entry.2.given? entry.1 key

private theorem lastGiven?_cons (entry : Timestamp × Request) (rest : List (Timestamp × Request)) (key : String) :
    lastGiven? (entry :: rest) key = (lastGiven? rest key).or (entry.2.given? entry.1 key) := by
  simp only [lastGiven?, List.reverse_cons, List.findSome?_append, List.findSome?_singleton]

/-- What is found under a key was given last for it, and has the digest of its manifest. -/
def Faithful (given : String → Option Snapshot) (cache : Snapshots) : Prop :=
  ∀ key entry, cache.store.find? key = some entry →
    given key = some entry.value ∧ entry.digest = manifestDigest entry.value.manifest

namespace Faithful
variable {given : String → Option Snapshot} {cache : Snapshots}

theorem thins {after : Snapshots} (faithful : Faithful given cache) (thins : Thins cache after) : Faithful given after := by
  intro key entry found
  obtain ⟨tick, held⟩ := thins.retains.entries key entry found
  exact faithful key { entry with tick } held

theorem set (faithful : Faithful given cache) (now : Timestamp) (project : Path) (aggregate : Json) (manifest : Manifest) :
    let request : Request := .set project aggregate manifest
    Faithful (fun key => (request.given? now key).or (given key)) (request.apply now cache) := by
  intro request key entry found
  by_cases same : project.key = key
  · subst same
    obtain ⟨value, digest⟩ := Store.find?_set_self found
    simp [request, Request.given?, value, digest]
  · obtain ⟨tick, held⟩ := (Store.find?_set found).resolve_left fun new => same new.1
    simpa [request, Request.given?, same] using faithful key { entry with tick } held

theorem apply (faithful : Faithful given cache) (now : Timestamp) (request : Request) :
    Faithful (fun key => (request.given? now key).or (given key)) (request.apply now cache) := by
  cases request with
  | set project aggregate manifest => exact faithful.set now project aggregate manifest
  | _ => exact faithful.thins (apply_thins now cache (by simp))

theorem run (faithful : Faithful given cache) (requests : List (Timestamp × Request)) :
    Faithful (fun key => (lastGiven? requests key).or (given key)) (run cache requests) := by
  induction requests generalizing given cache with
  | nil => exact faithful
  | cons entry rest ih =>
    have later := ih (faithful.apply entry.1 entry.2)
    simp only [← Option.or_assoc, ← lastGiven?_cons] at later
    exact later

end Faithful

theorem run_faithful (limits : Store.Limits) (requests : List (Timestamp × Request)) :
    Faithful (lastGiven? requests) (run (empty limits) requests) := by
  have start : Faithful (fun _ => none) (empty limits) := by
    intro key entry found
    simp [empty, Store.empty, Store.find?] at found
  simpa using start.run requests

/-! ### Reading -/

structure Effects (files : Files) (now : Timestamp) (cache : Snapshots) (project : Path) (served : Option Snapshot)
    (gone : String → Prop) : Prop where
  answer : (cache.get files now project).1 = .ok served
  sheds : Store.Sheds gone cache.store (cache.get files now project).2.store

section
variable {files : Files} {now : Timestamp} {cache : Snapshots} {project : Path}

private theorem get_of_missed (missed : cache.store.peek now project.key = none) :
    Effects files now cache project none (· = project.key) := by
  have unserved := Store.get_of_peek_none missed none
  have after : cache.get files now project = (.ok none, (cache.lookup now project.key none).2) := by
    simp only [Snapshots.get, missed, lookup, unserved]
  constructor <;> rw [after]
  exact (Store.Sheds.get cache.store now project.key none).congr (by simp [unserved])

variable {snapshot : Snapshot} (peeked : cache.store.peek now project.key = some snapshot)
include peeked

private theorem get_of_stale (checked : verify files snapshot.manifest.toList = .ok false) :
    Effects files now cache project none (· = project.key) := by
  have gone : (cache.store.drop project.key).find? project.key = none := by simp [Store.find?_drop]
  have unserved := Store.get_of_absent gone now none
  have after : cache.get files now project =
      (.ok none, (lookup now ⟨cache.store.drop project.key⟩ project.key none).2) := by
    simp only [Snapshots.get, peeked, checked, lookup, Store.delete, unserved]
  constructor <;> rw [after]
  have dropped := (Store.Without.drop cache.store project.key).sheds
  exact (dropped.trans (.get _ now project.key none)).congr (by simp [unserved])

private theorem Faithful.get_of_intact {given : String → Option Snapshot} (faithful : Faithful given cache)
    (intact : Intact files snapshot.manifest) : Effects files now cache project (some snapshot) fun _ => False := by
  obtain ⟨entry, found, fresh, rfl⟩ := Store.peek_eq_some.mp peeked
  have served : (cache.store.get now project.key (some (manifestDigest entry.value.manifest))).1 = some entry.value :=
    Store.get_eq_some.mpr ⟨entry, found, fresh, (faithful project.key entry found).2, rfl⟩
  have after : cache.get files now project = (.ok (some entry.value),
      (cache.lookup now project.key (some (manifestDigest entry.value.manifest))).2) := by
    simp only [Snapshots.get, peeked, verify_iff_intact.mpr intact, lookup, served]
  constructor <;> rw [after]
  exact (Store.Sheds.get cache.store now project.key _).congr (by simp [served])

end

/-- At all times, a read gives nothing where no snapshot has time left. Otherwise it gives what was stored last under the
key, as long as its whole manifest is live. If it is not, then the first file that differs decides: one that was read
takes the snapshot away, and one that could not be read leaves everything as it is. -/
theorem run_get_checks (limits : Store.Limits) (requests : List (Timestamp × Request)) (files : Files) (now : Timestamp)
    (project : Path) :
    let cache := run (empty limits) requests
    ((∀ snapshot, ¬cache.Holds now project.key snapshot) → Effects files now cache project none (· = project.key)) ∧
    (∀ snapshot, cache.Holds now project.key snapshot →
      lastGiven? requests project.key = some snapshot ∧
      (Intact files snapshot.manifest ∨ ∃ file digest, FirstStale files snapshot.manifest file digest) ∧
      (Intact files snapshot.manifest → Effects files now cache project (some snapshot) fun _ => False) ∧
      ∀ file digest, FirstStale files snapshot.manifest file digest →
        (∀ found, FileStamp.digestOf files ⟨file⟩ = .ok found →
          Effects files now cache project none (· = project.key)) ∧
        ∀ error, FileStamp.digestOf files ⟨file⟩ = .error error → cache.get files now project = (.error error, cache)) ∧
    ∀ snapshot, (cache.get files now project).1 = .ok (some snapshot) →
      lastGiven? requests project.key = some snapshot ∧ Intact files snapshot.manifest := by
  intro cache
  have faithful : Faithful (lastGiven? requests) cache := run_faithful limits requests
  have given (snapshot : Snapshot) (holds : cache.Holds now project.key snapshot) :
      lastGiven? requests project.key = some snapshot := by
    obtain ⟨entry, found, -, rfl⟩ := holds
    exact (faithful project.key entry found).1
  refine ⟨?_, ?_, ?_⟩
  · intro none
    refine get_of_missed (Option.eq_none_iff_forall_ne_some.mpr fun snapshot peeked => ?_)
    exact none snapshot (Store.peek_eq_some.mp peeked)
  · intro snapshot holds
    have peeked : cache.store.peek now project.key = some snapshot := Store.peek_eq_some.mpr holds
    refine ⟨given snapshot holds, intact_or_first files snapshot.manifest, faithful.get_of_intact peeked, ?_⟩
    intro file digest first
    have checked := first.verify
    constructor
    · intro found read
      rw [read] at checked
      exact get_of_stale peeked checked
    · intro error read
      rw [read] at checked
      have failed : (cache.get files now project).1 = .error error := get_error_iff.mpr ⟨snapshot, peeked, checked⟩
      exact Prod.ext failed (get_of_failure failed)
  · intro snapshot served
    obtain missed | ⟨entry, found, fresh, ⟨error, -, failed⟩ | ⟨checked, answer⟩⟩ := get_cases files now cache project
    · cases missed.symm.trans served
    · cases failed.symm.trans served
    · cases answer.symm.trans served
      exact ⟨given entry.value ⟨entry, found, fresh, rfl⟩, verify_iff_intact.mp checked⟩

end Snapshots
end FreshDocs
