import FreshDocs.Proofs.ArtifactDependencies
import FreshDocs.Proofs.CascadeOrder
import Mathlib.Algebra.Ring.Nat

/-! What a graph of dependencies holds after any edits. Both of its maps have the same pairs and no set that is empty,
and a path depends on what it was last recorded with, itself apart. -/

namespace FreshDocs.Dependencies
open Std

/-! ### Sets that are kept -/

/-- No set that is kept is empty. -/
def Filled (index : ExtTreeMap String PathSet) : Prop :=
  ∀ (place : String) (set : PathSet), index[place]? = some set → set ≠ ∅

namespace Filled
variable {index : ExtTreeMap String PathSet}

theorem empty : Filled ∅ := by
  intro place set kept
  simp at kept

theorem erase (filled : Filled index) (place : String) : Filled (index.erase place) := by
  intro other set kept
  rw [ExtTreeMap.getElem?_erase] at kept
  split at kept
  · cases kept
  · exact filled other set kept

theorem insert (filled : Filled index) (place : String) {set : PathSet} (some : set ≠ ∅) :
    Filled (index.insert place set) := by
  intro other held kept
  rw [ExtTreeMap.getElem?_insert] at kept
  split at kept
  · cases kept
    exact some
  · exact filled other held kept

private theorem links (filled : Filled index) (path : String) (targets : List String) :
    Filled (targets.foldl (link path) index) := by
  refine List.foldlRecOn targets (link path) filled fun reverse kept target _ => ?_
  refine kept.insert target fun none => ?_
  have member : path ∈ (setAt reverse target).insert path := ExtTreeSet.mem_insert_self
  rw [none] at member
  exact ExtTreeSet.not_mem_empty member

private theorem unlinks (filled : Filled index) (path : String) (targets : List String) :
    Filled (targets.foldl (unlink path) index) := by
  refine List.foldlRecOn targets (unlink path) filled fun reverse kept target _ => ?_
  unfold unlink
  dsimp only
  split
  next => exact kept.erase target
  next some => exact kept.insert target fun none => some (ExtTreeSet.isEmpty_iff.mpr none)

end Filled

/-! ### Pairs -/

def pairs (index : ExtTreeMap String PathSet) : List (String × String) :=
  index.toList.flatMap fun entry => entry.2.toList.map (entry.1, ·)

private theorem mem_pairs {index : ExtTreeMap String PathSet} {place other : String} :
    (place, other) ∈ pairs index ↔ other ∈ setAt index place := by
  simp only [pairs, List.mem_flatMap, List.mem_map, Prod.mk.injEq, Prod.exists, ExtTreeMap.mem_toList_iff_getElem?_eq_some,
    ExtTreeSet.mem_toList, setAt]
  cases kept : index[place]? with
  | none => simp [kept]
  | some set => simp [kept]

private theorem nodup_toList (set : PathSet) : set.toList.Nodup := by
  refine ExtTreeSet.ordered_toList.imp fun {first second} before same => ?_
  rw [same, ReflOrd.compare_self] at before
  cases before

private theorem nodup_pairs (index : ExtTreeMap String PathSet) : (pairs index).Nodup := by
  refine List.nodup_flatMap.mpr ⟨fun entry _ => ?_, ?_⟩
  · exact (nodup_toList entry.2).map (Prod.mk_right_injective entry.1)
  · refine index.distinct_keys_toList.imp fun {first second} different => ?_
    intro pair one two
    obtain ⟨_, -, rfl⟩ := List.mem_map.mp one
    obtain ⟨_, -, same⟩ := List.mem_map.mp two
    exact different (Std.compare_eq_iff_eq.mpr (Prod.mk.inj same).1.symm)

private theorem length_pairs (index : ExtTreeMap String PathSet) : (pairs index).length = (index.values.map (·.size)).sum := by
  rw [SortedMap.values_eq_map, List.map_map, pairs, List.length_flatMap]
  refine congrArg List.sum (List.map_congr_left fun entry _ => ?_)
  rw [List.length_map, ExtTreeSet.length_toList]
  rfl

private theorem edgeCount_eq (graph : Dependencies) : graph.edgeCount = (pairs graph.forward).length := by
  rw [length_pairs, edgeCount, List.sum_eq_foldl, List.foldl_map]

/-- The pairs of one map are those of the other, turned around. -/
theorem Mirrored.pairs_perm {graph : Dependencies} (mirrored : graph.Mirrored) :
    (pairs graph.reverse).Perm ((pairs graph.forward).map Prod.swap) := by
  refine (List.perm_ext_iff_of_nodup (nodup_pairs _) ((nodup_pairs _).map Prod.swap_injective)).mpr ?_
  rintro ⟨target, path⟩
  have both := mirrored path target
  simp only [DependsOn, dependencies, dependents, ExtTreeSet.mem_toList, ← mem_pairs] at both
  rw [List.mem_map_swap, both]

/-! ### Edits -/

/-- Both maps tell the same dependencies, and keep no set without need. -/
structure Indexed (graph : Dependencies) : Prop where
  mirrored : graph.Mirrored
  forward : Filled graph.forward
  reverse : Filled graph.reverse

theorem Indexed.empty : Indexed .empty :=
  ⟨.empty, .empty, .empty⟩

theorem Indexed.forget {graph : Dependencies} (indexed : graph.Indexed) (path : String) : (graph.forget path).Indexed where
  mirrored := indexed.mirrored.forget path
  forward := indexed.forward.erase path
  reverse := indexed.reverse.unlinks path _

theorem Indexed.record {graph : Dependencies} (indexed : graph.Indexed) (path : String) (targets : List String) :
    (graph.record path targets).Indexed := by
  refine ⟨indexed.mirrored.record path targets, ?_, ?_⟩
  all_goals
    have cleared := indexed.forget path
    unfold Dependencies.record
    dsimp only
    split
  next => exact cleared.forward
  next some => exact cleared.forward.insert path fun none => some (ExtTreeSet.isEmpty_iff.mpr none)
  next => exact cleared.reverse
  next => exact cleared.reverse.links path _

theorem Indexed.apply {graph : Dependencies} (indexed : graph.Indexed) (edit : Edit) : (edit.apply graph).Indexed := by
  cases edit with
  | record path targets => exact indexed.record path targets
  | forget path => exact indexed.forget path
  | clear => exact .empty

private theorem edited_indexed (edits : List Edit) : (edited edits).Indexed :=
  List.foldlRecOn edits Edit.apply .empty fun _ indexed edit _ => indexed.apply edit

def Edit.targets? (path : String) : Edit → Option (List String)
  | .record other targets => if other = path then some targets else none
  | .forget other => if other = path then some [] else none
  | .clear => some []

def lastTargets (path : String) (edits : List Edit) : List String :=
  (edits.reverse.findSome? (·.targets? path)).getD []

private theorem dependsOn_apply (graph : Dependencies) (edit : Edit) {path target : String} :
    (edit.apply graph).DependsOn path target ↔
      (∃ targets, edit.targets? path = some targets ∧ target ∈ targets ∧ target ≠ path) ∨
        edit.targets? path = none ∧ graph.DependsOn path target := by
  cases edit with
  | record other targets =>
    rw [Edit.apply, dependsOn_record]
    by_cases same : path = other
    · simp [Edit.targets?, same]
    · simp [Edit.targets?, same, Ne.symm same]
  | forget other =>
    rw [Edit.apply, dependsOn_forget]
    by_cases same : path = other
    · simp [Edit.targets?, same]
    · simp [Edit.targets?, same, Ne.symm same]
  | clear => simp [Edit.apply, Edit.targets?, empty, DependsOn, dependencies, setAt]

private theorem dependsOn_edited (edits : List Edit) {path target : String} :
    (edited edits).DependsOn path target ↔ target ∈ lastTargets path edits ∧ target ≠ path := by
  induction edits using List.reverseRecOn with
  | nil => simp [edited, lastTargets, empty, DependsOn, dependencies, setAt]
  | append_singleton edits edit ih =>
    have step : edited (edits ++ [edit]) = edit.apply (edited edits) := List.foldl_concat _ _ _ _
    rw [step, dependsOn_apply, ih]
    cases told : edit.targets? path with
    | none => simp [lastTargets, told]
    | some targets => simp [lastTargets, told]

private theorem dependencies_ascending (graph : Dependencies) (path : String) :
    (graph.dependencies path).Pairwise (· < ·) := by
  refine ExtTreeSet.ordered_toList.imp fun {first second} before => ?_
  exact compareOfLessAndEq_eq_lt.mp before

/-- After any edits both maps tell the same dependencies and keep no empty set. A path never depends on itself; it
depends on what it was last recorded with, in ascending order, unless it was forgotten or all was cleared since. Either
map has as many pairs as are counted. -/
theorem edited_tells_last (edits : List Edit) :
    let graph := edited edits
    (∀ path target, target ∈ setAt graph.forward path ↔ path ∈ setAt graph.reverse target) ∧
    Filled graph.forward ∧ Filled graph.reverse ∧
    (∀ path, path ∉ setAt graph.forward path) ∧
    (∀ path, (graph.dependencies path).Pairwise (· < ·) ∧
      ∀ target, target ∈ graph.dependencies path ↔ target ∈ lastTargets path edits ∧ target ≠ path) ∧
    graph.edgeCount = (graph.forward.values.map (·.size)).sum ∧
    graph.edgeCount = (graph.reverse.values.map (·.size)).sum := by
  intro graph
  obtain ⟨mirrored, forward, reverse⟩ := edited_indexed edits
  refine ⟨fun path target => ?_, forward, reverse, fun path own => ?_, fun path => ?_, ?_, ?_⟩
  · have both := mirrored path target
    rwa [DependsOn, dependencies, dependents, ExtTreeSet.mem_toList, ExtTreeSet.mem_toList] at both
  · have depends : graph.DependsOn path path := ExtTreeSet.mem_toList.mpr own
    exact ((dependsOn_edited edits).mp depends).2 rfl
  · exact ⟨graph.dependencies_ascending path, fun target => dependsOn_edited edits⟩
  · rw [edgeCount_eq, length_pairs]
  · rw [edgeCount_eq, ← length_pairs, mirrored.pairs_perm.length_eq, List.length_map]

end FreshDocs.Dependencies
