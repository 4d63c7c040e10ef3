import FreshDocs.Proofs.ArtifactContents
import FreshDocs.Proofs.SnapshotContents

/-! Requests that fail. All that a request has to read is read before anything is changed, so a failure leaves
the stores with their counters and the graph as they were. -/

namespace FreshDocs
namespace Artifacts

section
variable {cache : Artifacts} {files : Files} {now : Timestamp} {path : Path}

/-- Reading fails just if the file cannot be read. -/
theorem get_error_iff {error : StoreError} :
    (cache.get files now path).1 = .error error ↔ FileStamp.read files path = .error error := by
  cases read : FileStamp.read files path with
  | error fault => simp [get_of_error read]
  | ok found =>
    cases found with
    | none => simp [get_of_missing read]
    | some live =>
      have answered : (cache.get files now path).1 = .ok none ∨ _ := get_of_live read
      rcases answered with missed | ⟨entry, -, -, -, served⟩
      · simp [missed]
      · simp [served]

private theorem getTemplate_error_iff {error : StoreError} :
    (cache.getTemplate files now path).1 = .error error ↔ FileStamp.read files path = .error error := by
  cases read : FileStamp.read files path with
  | error fault => simp [getTemplate_of_error read]
  | ok found =>
    cases found with
    | none => simp [getTemplate_of_missing read]
    | some live =>
      have answered : (cache.getTemplate files now path).1 = .ok none ∨ _ := getTemplate_of_live read
      rcases answered with missed | ⟨entry, -, -, served⟩
      · simp [missed]
      · simp [served]

theorem get_of_failure {error : StoreError} (failed : (cache.get files now path).1 = .error error) :
    (cache.get files now path).2 = cache := by
  simp [Artifacts.get, get_error_iff.mp failed]

private theorem getTemplate_of_failure {error : StoreError} (failed : (cache.getTemplate files now path).1 = .error error) :
    (cache.getTemplate files now path).2 = cache := by
  simp [Artifacts.getTemplate, getTemplate_error_iff.mp failed]

private theorem set_of_refusal {analysis : Analysis} {dependencies : List String}
    (refused : (cache.set files now path analysis dependencies).1 ≠ .ok true) :
    (cache.set files now path analysis dependencies).2 = cache := by
  unfold Artifacts.set at refused ⊢
  split at refused
  next => rfl
  next => rfl
  next =>
    split at refused
    next changed => rw [if_pos changed]
    next => exact absurd rfl refused

private theorem setTemplate_of_refusal {template : Template}
    (refused : (cache.setTemplate files now path template).1 ≠ .ok true) :
    (cache.setTemplate files now path template).2 = cache := by
  unfold Artifacts.setTemplate at refused ⊢
  split at refused
  next => rfl
  next => rfl
  next => exact absurd rfl refused

end

end Artifacts

namespace Snapshots

variable {cache : Snapshots} {files : Files} {now : Timestamp} {project : Path}

theorem get_error_iff {error : StoreError} : (cache.get files now project).1 = .error error ↔
    ∃ snapshot, cache.store.peek now project.key = some snapshot ∧
      verify files snapshot.manifest.toList = .error error := by
  unfold Snapshots.get
  dsimp only
  split
  next missed => simp [missed]
  next snapshot peeked =>
    simp only [peeked, Option.some_inj, exists_eq_left']
    split <;> simp [*]

theorem get_of_failure {error : StoreError} (failed : (cache.get files now project).1 = .error error) :
    (cache.get files now project).2 = cache := by
  obtain ⟨snapshot, peeked, unreadable⟩ := get_error_iff.mp failed
  simp [Snapshots.get, peeked, unreadable]

end Snapshots

/-- A request that gives an error, or that declines to store, leaves everything as it was: entries and their
digests, the order of uses, sizes, all counters and the graph. -/
theorem failures_keep (artifacts : Artifacts) (snapshots : Snapshots) (files : Files) (now : Timestamp) (path : Path) :
    (∀ error, (artifacts.get files now path).1 = .error error → (artifacts.get files now path).2 = artifacts) ∧
    (∀ error, (artifacts.getTemplate files now path).1 = .error error →
      (artifacts.getTemplate files now path).2 = artifacts) ∧
    (∀ analysis dependencies, (artifacts.set files now path analysis dependencies).1 ≠ .ok true →
      (artifacts.set files now path analysis dependencies).2 = artifacts) ∧
    (∀ template, (artifacts.setTemplate files now path template).1 ≠ .ok true →
      (artifacts.setTemplate files now path template).2 = artifacts) ∧
    (∀ error, (snapshots.get files now path).1 = .error error → (snapshots.get files now path).2 = snapshots) :=
  ⟨fun _ => Artifacts.get_of_failure, fun _ => Artifacts.getTemplate_of_failure, fun _ _ => Artifacts.set_of_refusal,
    fun _ => Artifacts.setTemplate_of_refusal, fun _ => Snapshots.get_of_failure⟩

/-- There is a file where the path below has a directory. -/
def blocked : Files where
  root := .directory [("a.ts", .file .empty .epoch)]
  current := []

/-- A snapshot of the file, and of one that cannot be read any more. -/
def overbuilt : Snapshots :=
  let manifest : Manifest := .ofList [("a.ts", Digest.ofBytes .empty), ("a.ts/b.ts", Digest.ofBytes .empty)]
  ((Snapshots.empty {}).set .epoch ⟨"a.ts/b.ts"⟩ .null manifest).2

theorem blocked_failures_keep :
    let artifacts := Artifacts.empty {}
    let path : Path := ⟨"a.ts/b.ts"⟩
    let fault : StoreError := .unreadable path .notADirectory
    let stamp : FileStamp := { path, digest := .ofBytes .empty, size := 0, modified := .epoch }
    let template : Template := { path, sourceDigest := .ofBytes .empty, compiled := "" }
    ((artifacts.get blocked .epoch path).1 = .error fault ∧ (artifacts.get blocked .epoch path).2 = artifacts) ∧
    ((artifacts.getTemplate blocked .epoch path).1 = .error fault ∧
      (artifacts.getTemplate blocked .epoch path).2 = artifacts) ∧
    ((artifacts.set blocked .epoch path (.ofStamp stamp .null []) []).1 ≠ .ok true ∧
      (artifacts.set blocked .epoch path (.ofStamp stamp .null []) []).2 = artifacts) ∧
    ((artifacts.setTemplate blocked .epoch path template).1 ≠ .ok true ∧
      (artifacts.setTemplate blocked .epoch path template).2 = artifacts) ∧
    ((overbuilt.get blocked .epoch path).1 = .error fault ∧ (overbuilt.get blocked .epoch path).2 = overbuilt) := by
  intro artifacts path fault stamp template
  have unreadable : FileStamp.read blocked path = .error fault := by decide +kernel
  have checked : (overbuilt.store.peek .epoch path.key).map
      (fun snapshot => Snapshots.verify blocked snapshot.manifest.toList) = some (.error fault) := by
    decide +kernel
  have failed : (artifacts.get blocked .epoch path).1 = .error fault := Artifacts.get_error_iff.mpr unreadable
  have uncompiled : (artifacts.getTemplate blocked .epoch path).1 = .error fault :=
    Artifacts.getTemplate_error_iff.mpr unreadable
  have unstored : (artifacts.set blocked .epoch path (.ofStamp stamp .null []) []).1 ≠ .ok true := by
    simp [Artifacts.set, unreadable]
  have unkept : (artifacts.setTemplate blocked .epoch path template).1 ≠ .ok true := by
    simp [Artifacts.setTemplate, unreadable]
  have unserved : (overbuilt.get blocked .epoch path).1 = .error fault :=
    Snapshots.get_error_iff.mpr (Option.map_eq_some_iff.mp checked)
  obtain ⟨get, getTemplate, set, setTemplate, snapshot⟩ := failures_keep artifacts overbuilt blocked .epoch path
  exact ⟨⟨failed, get fault failed⟩, ⟨uncompiled, getTemplate fault uncompiled⟩, ⟨unstored, set _ _ unstored⟩,
    ⟨unkept, setTemplate template unkept⟩, unserved, snapshot fault unserved⟩

end FreshDocs
