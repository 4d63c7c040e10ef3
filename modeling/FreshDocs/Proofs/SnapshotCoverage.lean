import FreshDocs.Proofs.BatchInvalidation
import FreshDocs.Proofs.ReadCounters
import FreshDocs.Proofs.StoreRecency

/-! Which snapshots go when paths have changed: those of the projects around a path that they do not list. They are
picked one after the other while some are taken away already, and still the pick is the one that the first state
makes. -/

namespace FreshDocs

namespace Store
variable {α : Type}

theorem Without.drops (keys : List String) (store : Store α) : Without (· ∈ keys) store (keys.foldl Store.drop store) := by
  induction keys generalizing store with
  | nil => exact (Without.refl store).congr (by simp)
  | cons key rest ih => exact ((Without.drop store key).trans (ih (store.drop key))).congr (by simp)

theorem Coherent.keys_drops {store : Store α} (valid : Coherent store) (keys : List String) :
    (keys.foldl Store.drop store).keys = store.keys.filter (· ∉ keys) := by
  have dropped : Coherent (keys.foldl Store.drop store) := valid.steps (steps_drops keys store)
  rw [← dropped.keys_items, valid.items_drops, ← valid.keys_items, List.filter_map]
  rfl

end Store

namespace Snapshots

theorem apply_thins (now : Timestamp) (cache : Snapshots) {request : Request}
    (other : ∀ project aggregate manifest, request ≠ .set project aggregate manifest) :
    Thins cache (request.apply now cache) := by
  cases request with
  | set project aggregate manifest => exact (other project aggregate manifest rfl).elim
  | get files project => exact .get files now cache project
  | invalidate project => exact .delete cache project.key
  | invalidateUncovered paths => exact .dropMissing now paths _ cache
  | sweep => exact .sweep now cache
  | clear => exact .clear cache

theorem steps_apply (now : Timestamp) (cache : Snapshots) (request : Request) :
    Store.Steps cache.store (request.apply now cache).store := by
  cases request with
  | set project aggregate manifest => exact Store.steps_set _ _ _ _ _
  | _ => exact (apply_thins now cache (by simp)).steps

theorem run_coherent {cache : Snapshots} (valid : cache.store.Coherent) (requests : List (Timestamp × Request)) :
    (run cache requests).store.Coherent := by
  induction requests generalizing cache with
  | nil => exact valid
  | cons entry rest ih => exact ih (valid.steps (steps_apply entry.1 cache entry.2))

/-- There is a snapshot under the key, and its time has not run out. -/
def Holds (now : Timestamp) (cache : Snapshots) (key : String) (snapshot : Snapshot) : Prop :=
  ∃ entry, cache.store.find? key = some entry ∧ cache.store.isExpired now entry = false ∧ entry.value = snapshot

/-- One of the paths lies in the project under the key, and the snapshot of the project does not list it. -/
def Uncovered (now : Timestamp) (paths : List String) (cache : Snapshots) (key : String) : Prop :=
  ∃ snapshot, cache.Holds now key snapshot ∧
    ∃ path ∈ paths, (Path.mk key).components <+: (Path.mk path).components ∧ path ∉ snapshot.manifest

section
variable {now : Timestamp} {paths : List String} {cache : Snapshots} {key : String}

private theorem misses_iff {snapshot : Snapshot} : misses paths key snapshot = true ↔
    ∃ path ∈ paths, (Path.mk key).components <+: (Path.mk path).components ∧ path ∉ snapshot.manifest := by
  simp only [misses, List.any_eq_true, Bool.and_eq_true, Bool.not_eq_true', Bool.eq_false_iff, Path.isWithin,
    List.isPrefixOf_iff_prefix, Ne, Std.ExtTreeMap.contains_iff_mem]

private theorem uncovered_iff : (cache.store.peek now key).any (misses paths key) = true ↔ Uncovered now paths cache key := by
  simp only [Option.any_eq_true, misses_iff, Store.peek_eq_some]
  rfl

instance : Decidable (Uncovered now paths cache key) :=
  decidable_of_iff _ uncovered_iff

private theorem uncovered_drop {gone : String} (other : gone ≠ key) :
    Uncovered now paths ⟨cache.store.drop gone⟩ key ↔ Uncovered now paths cache key := by
  simp only [Uncovered, Holds, Store.find?_drop, if_neg other, Store.isExpired, (Store.Retains.drop cache.store gone).limits]

/-- What is dropped on the way does not change what is to be dropped next. -/
theorem dropMissing_eq (now : Timestamp) (paths : List String) {keys : List String} (distinct : keys.Nodup)
    (cache : Snapshots) :
    let gone := keys.filter (Uncovered now paths cache ·)
    dropMissing now paths keys cache = (gone.length, ⟨gone.foldl Store.drop cache.store⟩) := by
  induction keys generalizing cache with
  | nil => rfl
  | cons key rest ih =>
    obtain ⟨fresh, later⟩ := List.nodup_cons.mp distinct
    rw [dropMissing]
    simp only [uncovered_iff]
    split
    next uncovered =>
      have same : rest.filter (Uncovered now paths ⟨cache.store.drop key⟩ ·) = rest.filter (Uncovered now paths cache ·) := by
        apply List.filter_congr
        intro other member
        have differ : key ≠ other := fun equal => fresh (equal ▸ member)
        simp only [uncovered_drop differ]
      simp only [Store.delete, ih later, same, List.filter_cons, uncovered, decide_true, if_true, List.length_cons,
        List.foldl_cons]
    next covered => simp only [ih later, List.filter_cons, covered, decide_false, Bool.false_eq_true, if_false]

private theorem invalidateUncovered_eq (valid : cache.store.Coherent) (now : Timestamp) (paths : List String) :
    let gone := cache.store.keys.filter (Uncovered now paths cache ·)
    cache.invalidateUncovered now paths = (gone.length, ⟨gone.foldl Store.drop cache.store⟩) :=
  dropMissing_eq now paths valid.keys_nodup cache

private theorem invalidateUncovered_without (valid : cache.store.Coherent) (now : Timestamp) (paths : List String) :
    Store.Without (Uncovered now paths cache) cache.store (cache.invalidateUncovered now paths).2.store := by
  rw [invalidateUncovered_eq valid]
  apply (Store.Without.drops _ cache.store).congr
  intro key
  rw [List.mem_filter, decide_eq_true_iff, and_iff_right_iff_imp]
  intro ⟨_, ⟨entry, found, _⟩, _⟩
  exact valid.mem_keys found

/-- No snapshot is left that has not expired and misses one of the paths. -/
theorem invalidateUncovered_covers (valid : cache.store.Coherent) {entry : Store.Entry Snapshot}
    (left : (cache.invalidateUncovered now paths).2.store.find? key = some entry)
    (fresh : cache.store.isExpired now entry = false) : misses paths key entry.value = false := by
  obtain ⟨held, spared⟩ := (invalidateUncovered_without valid now paths key entry).mp left
  rw [Bool.eq_false_iff, Ne, misses_iff]
  intro missed
  exact spared ⟨entry.value, ⟨entry, held, fresh, rfl⟩, missed⟩

end

/-- At all times, exactly those snapshots are dropped that are uncovered, and they are counted. The others stay as they
are and keep their order, and no read is counted. Then no path is left that a snapshot of a project around it misses. -/
theorem run_drops_uncovered (limits : Store.Limits) (requests : List (Timestamp × Request)) (now : Timestamp)
    (paths : List String) :
    let cache := run (empty limits) requests
    let dropped := cache.invalidateUncovered now paths
    Store.Without (Uncovered now paths cache) cache.store dropped.2.store ∧
    dropped.1 = cache.store.keys.countP (Uncovered now paths cache ·) ∧
    dropped.2.store.keys = cache.store.keys.filter (¬Uncovered now paths cache ·) ∧
    dropped.2.store.hits = cache.store.hits ∧ dropped.2.store.misses = cache.store.misses ∧
    ∀ key snapshot, dropped.2.Holds now key snapshot →
      ∀ path ∈ paths, (Path.mk key).components <+: (Path.mk path).components → path ∈ snapshot.manifest := by
  intro cache dropped
  have valid : cache.store.Coherent := run_coherent (.initial limits _) requests
  have shape : dropped = _ := invalidateUncovered_eq valid now paths
  have quiet := counts_dropMissing now paths cache.store.keys cache
  have limits : dropped.2.store.limits = cache.store.limits :=
    (Thins.dropMissing now paths cache.store.keys cache).retains.limits
  refine ⟨invalidateUncovered_without valid now paths, ?_, ?_, quiet.hits, quiet.misses, ?_⟩
  · rw [shape, List.countP_eq_length_filter]
  · rw [shape, valid.keys_drops]
    apply List.filter_congr
    intro key member
    simp [member]
  · intro key snapshot ⟨entry, left, fresh, value⟩ path member within
    subst value
    rw [Store.isExpired, limits] at fresh
    have covered := invalidateUncovered_covers valid left fresh
    apply Classical.byContradiction
    intro missing
    exact Bool.eq_false_iff.mp covered (misses_iff.mpr ⟨path, member, within, missing⟩)

end Snapshots
end FreshDocs
