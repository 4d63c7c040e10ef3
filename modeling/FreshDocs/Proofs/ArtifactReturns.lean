import FreshDocs.Proofs.ArtifactReads

/-! Whether an analysis that was stored is given back. It is stored as long as the digest of the file is still the one
that it was made from, but it is served only while size and time of the last change are the same as well. -/

namespace FreshDocs

namespace Store
variable {α : Type} [ToJson α] {store : Store α}

/-- A value that is within the limits by itself is not evicted when it is stored. -/
theorem not_evicted_of_fits (now : Timestamp) (key : String) (value : α) (digest : Option Digest)
    (fits : store.weigh value ≤ store.limits.maxSize) (room : 1 ≤ store.limits.maxEntries) :
    key ∉ (Request.set key value digest).evicts now store := by
  have alone : store.limits.Hold ((store.recency.without key ++ [Item.new store.weigh now key value digest]).drop
      (store.recency.without key).length) := by
    simpa [Limits.Hold, Item.new] using ⟨fits, room⟩
  have others := Nat.find_min' (store.limits.exists_hold _) alone
  intro gone
  rw [Request.evicts, Limits.victims, List.take_append_of_le_length others] at gone
  obtain ⟨item, member, same⟩ := List.mem_map.mp gone
  exact (Recency.mem_without.mp (List.mem_of_mem_take member)).2 same

private theorem Coherent.item?_set (valid : Coherent store) (now : Timestamp) (key : String) (value : α) (digest : Option Digest)
    (fits : store.weigh value ≤ store.limits.maxSize) (room : 1 ≤ store.limits.maxEntries) :
    (store.set now key value digest).item? key = some (.new store.weigh now key value digest) := by
  let item := Item.new store.weigh now key value digest
  have spared := not_evicted_of_fits now key value digest fits room
  have member : item ∈ (store.set now key value digest).recency.items :=
    (valid.mem_operation now (.ask (.set key value digest))).mpr (.inl ⟨value, digest, rfl, rfl, spared⟩)
  obtain ⟨entry, present, shape⟩ := (valid.apply now (.set key value digest)).mem_items.mp member
  have found : (store.set now key value digest).find? key = some entry := present
  rw [item?, found]
  exact congrArg some shape

end Store

namespace Artifacts

/-- What is accepted is made from a file with the content of the live one. -/
theorem accepted_iff {cache : Artifacts} {files : Files} {now : Timestamp} {path : Path} {analysis : Analysis}
    {dependencies : List String} :
    (cache.set files now path analysis dependencies).1 = .ok true ↔
      ∃ live, FileStamp.read files path = .ok (some live) ∧ live.digest = analysis.stamp.digest := by
  unfold set
  cases found : FileStamp.read files path with
  | error fault => simp
  | ok stamp =>
    cases stamp with
    | none => simp
    | some live => by_cases same : live.digest = analysis.stamp.digest <;> simp [same]

section
variable (analysis : Analysis) (dependencies : List String) {files : Files} {path : Path} {stored now : Timestamp}

/-- The next read looks at size and time of the file, which storing did not. -/
theorem Operates.returns {limits : Store.Limits} {cache : Artifacts}
    (operates : Operates { limits, weigh := fun analysis => (toJson analysis).size } cache.analyses)
    (fits : (toJson { analysis with dependencies }).size ≤ limits.maxSize) (room : 1 ≤ limits.maxEntries)
    (young : now.nanosSince stored ≤ limits.ttl * 1000000) {live : FileStamp}
    (read : FileStamp.read files path = .ok (some live)) (same : live.digest = analysis.stamp.digest) :
    ((cache.set files stored path analysis dependencies).2.get files now path).1 =
      .ok (if analysis.stamp.size = live.size ∧ analysis.stamp.modified = live.modified then
        some { analysis with dependencies } else none) := by
  rw [set_of_live read same]
  have kept := operates.coherent.item?_set stored path.key { analysis with dependencies } (some analysis.stamp.digest)
    (by rw [operates.weighs, operates.limits]; exact fits) (by rw [operates.limits]; exact room)
  obtain ⟨entry, present, shape⟩ := Option.map_eq_some_iff.mp kept
  have value : entry.value = { analysis with dependencies } := congrArg Store.Item.value shape
  have digest : entry.digest = analysis.stamp.digest := congrArg Store.Item.digest shape
  have storedAt : entry.storedAt = stored := congrArg Store.Item.storedAt shape
  rw [(get_of_same now read present (digest.trans same.symm)).answer]
  have fresh : Timestamp.olderThan limits.ttl stored now = false := decide_eq_false (Int.not_lt.mpr young)
  simp [Store.isExpired, Store.limits_set, operates.limits, storedAt, fresh, agrees_iff, value, same]

/-- An analysis that was stored is served by the next read just if its stamp has size and time of the live file too. -/
theorem run_accepted_returns_iff (limits : Limits) (requests : List (Timestamp × Request))
    (fits : (toJson { analysis with dependencies }).size ≤ limits.analyses.maxSize)
    (room : 1 ≤ limits.analyses.maxEntries)
    (young : now.nanosSince stored ≤ limits.analyses.ttl * 1000000) :
    let cache := run (empty limits) requests
    let set := cache.set files stored path analysis dependencies
    set.1 = .ok true → ∃ live, FileStamp.read files path = .ok (some live) ∧ live.digest = analysis.stamp.digest ∧
      (set.2.get files now path).1 =
        .ok (if analysis.stamp.size = live.size ∧ analysis.stamp.modified = live.modified then
          some { analysis with dependencies } else none) := by
  intro cache set accepted
  obtain ⟨live, read, same⟩ := accepted_iff.mp accepted
  have operates := Operates.run (empty limits) requests
  exact ⟨live, read, same, operates.returns analysis dependencies fits room young read same⟩

end

def ofBlank : Analysis :=
  .ofStamp { path := ⟨"a.ts"⟩, digest := .ofBytes .empty, size := 0, modified := .epoch } .null ["b.ts"]

theorem size_ofBlank : (toJson ofBlank).size ≤ 64 * 1024 * 1024 := by decide +kernel

theorem untouched_returns_iff :
    let cache := run (empty {}) depending
    let set := cache.set (blank .epoch) .epoch ⟨"a.ts"⟩ ofBlank ["b.ts"]
    (toJson ofBlank).size ≤ 64 * 1024 * 1024 ∧ set.1 = .ok true ∧
      ∃ live, FileStamp.read (blank .epoch) ⟨"a.ts"⟩ = .ok (some live) ∧ live.digest = ofBlank.stamp.digest ∧
        (set.2.get (blank .epoch) .epoch ⟨"a.ts"⟩).1 =
          .ok (if ofBlank.stamp.size = live.size ∧ ofBlank.stamp.modified = live.modified then some ofBlank else none) := by
  intro cache set
  have young : Timestamp.epoch.nanosSince .epoch ≤ 3600 * 1000 * 1000000 := by decide
  have accepted : set.1 = .ok true := accepted_iff.mpr ⟨ofBlank.stamp, rfl, rfl⟩
  exact ⟨size_ofBlank, accepted, run_accepted_returns_iff ofBlank ["b.ts"] {} depending size_ofBlank (by decide) young accepted⟩

/-- Of a file that was only touched since, an analysis is stored, and the next read does not give it back. -/
theorem touched_not_returned :
    let files := blank (Timestamp.epoch.addMillis 5000)
    let stored := (empty {}).set files .epoch ⟨"a.ts"⟩ ofBlank ["b.ts"]
    (toJson ofBlank).size ≤ 64 * 1024 * 1024 ∧ stored.1 = .ok true ∧ (stored.2.get files .epoch ⟨"a.ts"⟩).1 = .ok none := by
  intro files stored
  let live : FileStamp :=
    { path := ⟨"a.ts"⟩, digest := .ofBytes .empty, size := 0, modified := Timestamp.epoch.addMillis 5000 }
  have read : FileStamp.read files ⟨"a.ts"⟩ = .ok (some live) := rfl
  have young : Timestamp.epoch.nanosSince .epoch ≤ 3600 * 1000 * 1000000 := by decide
  have accepted : stored.1 = .ok true := accepted_iff.mpr ⟨live, read, rfl⟩
  have touched : ¬(ofBlank.stamp.size = live.size ∧ ofBlank.stamp.modified = live.modified) := by decide
  have operates : Operates (empty {}).analyses (empty {}).analyses := .refl _
  have returned := operates.returns ofBlank ["b.ts"] size_ofBlank (by decide) young read rfl
  rw [if_neg touched] at returned
  exact ⟨size_ofBlank, accepted, returned⟩

end Artifacts
end FreshDocs
