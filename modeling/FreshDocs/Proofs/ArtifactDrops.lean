import FreshDocs.Proofs.ArtifactReads
import FreshDocs.Proofs.SnapshotCoverage
import Mathlib.Data.List.Dedup
import Mathlib.Data.List.Perm.Basic

/-! What an invalidation of several files drops. The cascades follow the dependencies and not what is stored, so it
makes no difference that one of them meets what another has left. All that is stored and reached goes, once, in
whatever order the files are given, and however often. -/

namespace FreshDocs

/-! ### Dropping keys -/

namespace Store
variable {α : Type}

private theorem drop_comm (store : Store α) (first second : String) :
    (store.drop first).drop second = (store.drop second).drop first := by
  by_cases same : first = second
  · rw [same]
  have one : (store.drop first).find? second = store.find? second := by rw [find?_drop, if_neg same]
  have two : (store.drop second).find? first = store.find? first := by rw [find?_drop, if_neg (Ne.symm same)]
  cases held : store.find? first with
  | none => rw [drop_of_absent held, drop_of_absent (two.trans held)]
  | some entry =>
    cases other : store.find? second with
    | none => rw [drop_of_absent other, drop_of_absent (one.trans other)]
    | some more =>
      rw [drop_of_present (one.trans other), drop_of_present (two.trans held), drop_of_present held,
        drop_of_present other]
      simp only [SortedMap.erase_comm store.entries first, SortedMap.erase_comm store.order entry.tick,
        Nat.sub_right_comm store.totalSize entry.size]

instance : RightCommutative (drop : Store α → String → Store α) := ⟨drop_comm⟩

/-- A key that is dropped with others need not be dropped before. -/
theorem drops_of_mem {keys : List String} {key : String} (listed : key ∈ keys) (store : Store α) :
    keys.foldl drop (store.drop key) = keys.foldl drop store := by
  induction keys generalizing store with
  | nil => cases listed
  | cons first rest ih =>
    rw [List.foldl_cons, List.foldl_cons]
    rcases List.mem_cons.mp listed with rfl | later
    · have gone : (store.drop key).find? key = none := by rw [find?_drop, if_pos rfl]
      rw [drop_of_absent gone]
    · rw [drop_comm, ih later]

private theorem drops_dedup (keys : List String) (store : Store α) : keys.dedup.foldl drop store = keys.foldl drop store := by
  induction keys generalizing store with
  | nil => rfl
  | cons key rest ih =>
    by_cases listed : key ∈ rest
    · rw [List.dedup_cons_of_mem listed, ih, List.foldl_cons, drops_of_mem listed]
    · rw [List.dedup_cons_of_notMem listed, List.foldl_cons, List.foldl_cons, ih]

/-- What is left depends on which keys were dropped, and not on their order. -/
theorem drops_congr {first second : List String} (same : ∀ key, key ∈ first ↔ key ∈ second) (store : Store α) :
    first.foldl drop store = second.foldl drop store := by
  have listed : first.dedup.Perm second.dedup := by
    apply (List.perm_ext_iff_of_nodup first.nodup_dedup second.nodup_dedup).mpr
    simpa only [List.mem_dedup] using same
  rw [← drops_dedup first, ← drops_dedup second]
  exact listed.foldl_eq store

end Store

/-! ### Dropping analyses -/

namespace Artifacts

theorem dropAll_cons (key : String) (rest : List String) (cache : Artifacts) :
    let later := dropAll rest { cache with analyses := cache.analyses.drop key }
    dropAll (key :: rest) cache =
      (if (cache.analyses.find? key).isSome then key :: later.1 else later.1, later.2) := rfl

private theorem dropAll_eq (keys : List String) (cache : Artifacts) :
    (dropAll keys cache).2 = { cache with analyses := keys.foldl Store.drop cache.analyses } := by
  induction keys generalizing cache with
  | nil => rfl
  | cons key rest ih => exact ih _

private theorem dropAll_append (first second : List String) (cache : Artifacts) :
    dropAll (first ++ second) cache =
      ((dropAll first cache).1 ++ (dropAll second (dropAll first cache).2).1,
        (dropAll second (dropAll first cache).2).2) := by
  induction first generalizing cache with
  | nil => rfl
  | cons key rest ih =>
    rw [List.cons_append, dropAll_cons, dropAll_cons, ih]
    split <;> rfl

theorem mem_dropAll {keys : List String} {cache : Artifacts} {key : String} :
    key ∈ (dropAll keys cache).1 ↔ key ∈ keys ∧ (cache.analyses.find? key).isSome := by
  induction keys generalizing cache with
  | nil => simp [dropAll]
  | cons first rest ih =>
    rw [dropAll_cons]
    by_cases same : first = key
    · subst same
      split
      next held => simp [held]
      next absent => simp [ih, Store.find?_drop, absent]
    · split <;> simp [ih, Store.find?_drop, same, Ne.symm same]

/-- No key is named twice, since it is gone after the first time. -/
theorem nodup_dropAll (keys : List String) (cache : Artifacts) : (dropAll keys cache).1.Nodup := by
  induction keys generalizing cache with
  | nil => exact List.nodup_nil
  | cons key rest ih =>
    rw [dropAll_cons]
    split
    · refine List.nodup_cons.mpr ⟨fun again => ?_, ih _⟩
      simpa [Store.find?_drop] using (mem_dropAll.mp again).2
    · exact ih _

private theorem dropAll_of_absent {keys : List String} {cache : Artifacts}
    (absent : ∀ key ∈ keys, cache.analyses.find? key = none) : dropAll keys cache = ([], cache) := by
  induction keys with
  | nil => rfl
  | cons key rest ih =>
    obtain ⟨first, later⟩ := List.forall_mem_cons.mp absent
    rw [dropAll_cons, Store.drop_of_absent first, ih later, first]
    rfl

/-- The keys that the cascades from some paths lead to, one cascade after the other. -/
def reached (graph : Dependencies) (paths : List Path) : List String :=
  paths.flatMap fun path => graph.cascade path.key

/-- The cascades are those of the first state, though each is walked in the state that the one before has left. -/
theorem invalidateAll_eq (paths : List Path) (cache : Artifacts) :
    invalidateAll paths cache = dropAll (reached cache.graph paths) cache := by
  induction paths generalizing cache with
  | nil => rfl
  | cons path rest ih =>
    have same : (dropAll (cache.graph.cascade path.key) cache).2.graph = cache.graph := graph_dropAll _ cache
    rw [reached, List.flatMap_cons, dropAll_append, invalidateAll]
    simp only [invalidate, ih, same]
    rfl

/-- At all times an invalidation of several files drops what is stored and reached from one of them, and names each
of these keys once. What is left keeps its entries and its order, templates and dependencies stay as they are, the order
of the files and repeated ones make no difference, and the second time nothing is dropped. -/
theorem run_invalidateAll_drops (limits : Limits) (requests : List (Timestamp × Request)) (paths : List Path) :
    let cache := run (empty limits) requests
    let removed := (invalidateAll paths cache).1
    let after := (invalidateAll paths cache).2
    removed.Nodup ∧
    (∀ key, key ∈ removed ↔ key ∈ cache.cachedPaths ∧ ∃ path ∈ paths, key ∈ cache.graph.cascade path.key) ∧
    Store.Without (fun key => ∃ path ∈ paths, key ∈ cache.graph.cascade path.key) cache.analyses after.analyses ∧
    after.cachedPaths = cache.cachedPaths.filter (· ∉ removed) ∧
    after.templates = cache.templates ∧ after.graph = cache.graph ∧
    (∀ others, (∀ path, path ∈ others ↔ path ∈ paths) →
      (invalidateAll others cache).2 = after ∧ (invalidateAll others cache).1.Perm removed) ∧
    invalidateAll paths after = ([], after) := by
  intro cache removed after
  have valid : cache.analyses.Coherent := (Operates.run (empty limits) requests).coherent
  have mem_reached (others : List Path) (key : String) :
      key ∈ reached cache.graph others ↔ ∃ path ∈ others, key ∈ cache.graph.cascade path.key := List.mem_flatMap
  have named : removed = (dropAll (reached cache.graph paths) cache).1 := congrArg Prod.fst (invalidateAll_eq paths cache)
  have left : after = { cache with analyses := (reached cache.graph paths).foldl Store.drop cache.analyses } := by
    rw [← dropAll_eq, ← invalidateAll_eq]
  have mem_removed (key : String) : key ∈ removed ↔ key ∈ reached cache.graph paths ∧ key ∈ cache.cachedPaths := by
    rw [named, mem_dropAll, cachedPaths, valid.mem_keys_iff]
  refine ⟨named ▸ nodup_dropAll _ cache, fun key => ?_, ?_, ?_, ?_, ?_, fun others same => ⟨?_, ?_⟩, ?_⟩
  · rw [mem_removed, mem_reached, and_comm]
  · rw [left]
    exact (Store.Without.drops _ cache.analyses).congr (mem_reached paths)
  · rw [left]
    refine (valid.keys_drops _).trans (List.filter_congr fun key stored => ?_)
    have stored : key ∈ cache.cachedPaths := stored
    simp only [mem_removed, stored, and_true]
  · rw [left]
  · rw [left]
  · rw [invalidateAll_eq, dropAll_eq, left]
    have alike : ∀ key, key ∈ reached cache.graph others ↔ key ∈ reached cache.graph paths := by
      simp only [mem_reached, same, implies_true]
    rw [Store.drops_congr alike]
  · rw [invalidateAll_eq, named]
    apply (List.perm_ext_iff_of_nodup (nodup_dropAll _ cache) (nodup_dropAll _ cache)).mpr
    simp only [mem_dropAll, mem_reached, same, implies_true]
  · have graph : after.graph = cache.graph := by rw [left]
    rw [invalidateAll_eq, graph]
    apply dropAll_of_absent
    intro key listed
    have gone := find?_dropAll listed cache
    rwa [dropAll_eq, ← left] at gone

end Artifacts
end FreshDocs
