import FreshDocs.Proofs.ArtifactContents
import FreshDocs.Proofs.SortedMaps
import Mathlib.Logic.Relation

/-! What a cascade lists: the path it starts from and everything that relies on it, whatever cycles
there are on the way. The index that it walks along mirrors the recorded dependencies at all times. -/

namespace FreshDocs.Dependencies
open Std Relation

/-- The first path was recorded to depend on the second. -/
def DependsOn (graph : Dependencies) (path target : String) : Prop :=
  target ∈ graph.dependencies path

/-- The first path is the second or depends on it, directly or not. -/
abbrev ReliesOn (graph : Dependencies) : String → String → Prop :=
  ReflTransGen graph.DependsOn

/-- Each dependency is known from both of its ends. -/
def Mirrored (graph : Dependencies) : Prop :=
  ∀ path target, graph.DependsOn path target ↔ path ∈ graph.dependents target

theorem Mirrored.empty : Mirrored {} := by
  intro path target
  simp [DependsOn, dependencies, dependents, setAt]

/-! ### Recording -/

section
variable (path : String) (reverse : ExtTreeMap String PathSet)

private theorem mem_unlink (target place other : String) :
    other ∈ setAt (unlink path reverse target) place ↔
      other ∈ setAt reverse place ∧ ¬(place = target ∧ other = path) := by
  have erased : other ∈ (setAt reverse target).erase path ↔ other ∈ setAt reverse target ∧ other ≠ path := by
    rw [ExtTreeSet.mem_erase, ne_eq, Std.compare_eq_iff_eq, eq_comm, and_comm]
  simp only [unlink]
  by_cases here : target = place
  · subst here
    split
    next none =>
      have missing : other ∉ (setAt reverse target).erase path := by
        rw [ExtTreeSet.isEmpty_iff.mp none]
        exact ExtTreeSet.not_mem_empty
      rw [erased] at missing
      simp only [setAt, ExtTreeMap.getElem?_erase_self, Option.getD_none]
      simpa [setAt] using missing
    next =>
      rw [setAt, ExtTreeMap.getElem?_insert_self, Option.getD_some, erased]
      simp
  · have kept : setAt (if ((setAt reverse target).erase path).isEmpty = true then reverse.erase target
        else reverse.insert target ((setAt reverse target).erase path)) place = setAt reverse place := by
      split
      · simp [setAt, ExtTreeMap.getElem?_erase, here]
      · simp [setAt, ExtTreeMap.getElem?_insert, here]
    rw [kept]
    simp [Ne.symm here]

private theorem mem_unlinks (targets : List String) (place other : String) :
    other ∈ setAt (targets.foldl (unlink path) reverse) place ↔
      other ∈ setAt reverse place ∧ ¬(place ∈ targets ∧ other = path) := by
  induction targets generalizing reverse with
  | nil => simp
  | cons target rest ih =>
    rw [List.foldl_cons, ih, mem_unlink, List.mem_cons]
    grind

private theorem mem_link (target place other : String) :
    other ∈ setAt (link path reverse target) place ↔
      other ∈ setAt reverse place ∨ place = target ∧ other = path := by
  by_cases here : target = place
  · subst here
    rw [link, setAt, ExtTreeMap.getElem?_insert_self, Option.getD_some, ExtTreeSet.mem_insert,
      Std.compare_eq_iff_eq, eq_comm, or_comm]
    simp
  · simp [link, setAt, ExtTreeMap.getElem?_insert, here, Ne.symm here]

private theorem mem_links (targets : List String) (place other : String) :
    other ∈ setAt (targets.foldl (link path) reverse) place ↔
      other ∈ setAt reverse place ∨ place ∈ targets ∧ other = path := by
  induction targets generalizing reverse with
  | nil => simp
  | cons target rest ih =>
    rw [List.foldl_cons, ih, mem_link, List.mem_cons]
    grind

end

/-- What is forgotten of a path is what it depends on, and nothing else. -/
theorem dependsOn_forget (graph : Dependencies) (path : String) {other target : String} :
    (graph.forget path).DependsOn other target ↔ other ≠ path ∧ graph.DependsOn other target := by
  by_cases same : path = other
  · subst same
    simp [DependsOn, dependencies, forget, setAt]
  · simp [DependsOn, dependencies, forget, setAt, ExtTreeMap.getElem?_erase, same, Ne.symm same]

theorem Mirrored.forget {graph : Dependencies} (mirrored : Mirrored graph) (path : String) :
    Mirrored (graph.forget path) := by
  intro other target
  have both := mirrored other target
  rw [dependsOn_forget]
  simp only [dependents, Dependencies.forget, ExtTreeSet.mem_toList, mem_unlinks] at both ⊢
  rw [← both]
  constructor
  · rintro ⟨different, depends⟩
    exact ⟨depends, fun same => different same.2⟩
  · rintro ⟨depends, kept⟩
    refine ⟨?_, depends⟩
    rintro rfl
    exact kept ⟨depends, rfl⟩

theorem Mirrored.record {graph : Dependencies} (mirrored : Mirrored graph) (path : String)
    (targets : List String) : Mirrored (graph.record path targets) := by
  have cleared := mirrored.forget path
  unfold Dependencies.record
  dsimp only
  split
  · exact cleared
  · intro other target
    have both := cleared other target
    have unknown : ¬(graph.forget path).DependsOn path target := by
      simp [dependsOn_forget]
    simp only [DependsOn, dependencies, dependents, ExtTreeSet.mem_toList, mem_links] at both unknown ⊢
    rw [← both]
    by_cases same : path = other
    · subst same
      rw [setAt, ExtTreeMap.getElem?_insert_self, Option.getD_some]
      simp [unknown]
    · simp [setAt, ExtTreeMap.getElem?_insert, same, Ne.symm same]

/-! ### Cascades -/

/-- The number of times that paths which were not visited yet may still be queued. -/
def left (visited : List String) : List (String × PathSet) → Nat
  | [] => 0
  | (path, dependents) :: rest => (if path ∈ visited then 0 else dependents.size) + left visited rest

private theorem left_append (visited : List String) (path : String) (entries : List (String × PathSet)) :
    left (visited ++ [path]) entries ≤ left visited entries := by
  induction entries with
  | nil => exact Nat.le_refl _
  | cons entry rest ih =>
    refine Nat.add_le_add ?_ ih
    by_cases seen : entry.1 ∈ visited
    · rw [if_pos (List.mem_append_left _ seen)]
      exact Nat.zero_le _
    · rw [if_neg seen]
      split <;> omega

/-- A path that is visited queues no more than what was left for it. -/
theorem left_visit {visited : List String} {path : String} {dependents : PathSet}
    {entries : List (String × PathSet)} (listed : (path, dependents) ∈ entries) (new : path ∉ visited) :
    dependents.size + left (visited ++ [path]) entries ≤ left visited entries := by
  induction entries with
  | nil => cases listed
  | cons entry rest ih =>
    rcases List.mem_cons.mp listed with rfl | later
    · have others := left_append visited path rest
      rw [left, left, if_neg new, if_pos (List.mem_append_right _ List.mem_cons_self)]
      omega
    · have others := ih later
      have first : (if entry.1 ∈ visited ++ [path] then 0 else entry.2.size) ≤
          if entry.1 ∈ visited then 0 else entry.2.size := by
        by_cases seen : entry.1 ∈ visited
        · rw [if_pos (List.mem_append_left _ seen)]
          exact Nat.zero_le _
        · rw [if_neg seen]
          split <;> omega
      rw [left, left]
      omega

private theorem left_nil (entries : List (String × PathSet)) (count : Nat) :
    (entries.map Prod.snd).foldl (· + ·.size) count = count + left [] entries := by
  induction entries generalizing count with
  | nil => rfl
  | cons entry rest ih =>
    rw [List.map_cons, List.foldl_cons, ih, left, if_neg List.not_mem_nil, Nat.add_assoc]

section
variable (graph : Dependencies)

/-- What depends on a visited path has been visited as well, or is queued. -/
def Caught (graph : Dependencies) (queue visited : List String) : Prop :=
  ∀ path ∈ visited, ∀ next ∈ graph.dependents path, next ∈ visited ∨ next ∈ queue

section
variable {graph} {path : String} {rest visited : List String}

theorem Caught.skip (caught : graph.Caught (path :: rest) visited) (seen : path ∈ visited) : graph.Caught rest visited := by
  intro other member next depends
  rcases caught other member next depends with old | queued
  · exact .inl old
  · rcases List.mem_cons.mp queued with rfl | waiting
    · exact .inl seen
    · exact .inr waiting

theorem Caught.visit (caught : graph.Caught (path :: rest) visited) :
    graph.Caught (rest ++ (graph.dependents path).filter (!(visited ++ [path]).contains ·)) (visited ++ [path]) := by
  intro other member next depends
  by_cases old : next ∈ visited ++ [path]
  · exact .inl old
  right
  rcases List.mem_append.mp member with before | new
  · rcases caught other before next depends with visited | queued
    · exact (old (List.mem_append_left _ visited)).elim
    · rcases List.mem_cons.mp queued with rfl | waiting
      · exact (old (List.mem_append_right _ List.mem_cons_self)).elim
      · exact List.mem_append_left _ waiting
  · rw [List.mem_singleton.mp new] at depends
    exact List.mem_append_right _ (List.mem_filter.mpr ⟨depends, by simpa using old⟩)

end

/-- Visiting a path uses up what was left for its dependents. -/
theorem left_dependents {path : String} {visited : List String} (new : path ∉ visited) :
    (graph.dependents path).length + left (visited ++ [path]) graph.reverse.toList ≤ left visited graph.reverse.toList := by
  cases held : graph.reverse[path]? with
  | none =>
    have none : graph.dependents path = [] := by simp [dependents, setAt, held]
    rw [none, List.length_nil, Nat.zero_add]
    exact left_append visited path _
  | some set =>
    have size : (graph.dependents path).length = set.size := by
      simp [dependents, setAt, held, ExtTreeSet.length_toList]
    rw [size]
    exact left_visit (ExtTreeMap.mem_toList_iff_getElem?_eq_some.mpr held) new

/-- With fuel for all that can still be queued, a walk visits whatever is in its queue, and all
dependents of whatever it visits. -/
theorem visit_closed (fuel : Nat) (queue visited : List String)
    (enough : queue.length + left visited graph.reverse.toList ≤ fuel) (caught : graph.Caught queue visited) :
    (∀ path ∈ queue, path ∈ graph.visit fuel queue visited) ∧ graph.Caught [] (graph.visit fuel queue visited) := by
  induction fuel generalizing queue visited with
  | zero =>
    cases queue with
    | nil => exact ⟨by simp, caught⟩
    | cons path rest =>
      rw [List.length_cons] at enough
      omega
  | succ fuel ih =>
    cases queue with
    | nil => exact ⟨by simp, caught⟩
    | cons path rest =>
      rw [List.length_cons] at enough
      rw [visit]
      by_cases seen : path ∈ visited
      · rw [if_pos (List.contains_iff_mem.mpr seen)]
        have later := ih rest visited (by omega) (caught.skip seen)
        exact ⟨List.forall_mem_cons.mpr ⟨graph.mem_visit fuel rest seen, later.1⟩, later.2⟩
      · rw [if_neg (by simpa using seen)]
        have fewer := graph.left_dependents seen
        have short := List.length_filter_le (fun next => !(visited ++ [path]).contains next) (graph.dependents path)
        obtain ⟨queued, closed⟩ := ih _ _ (by rw [List.length_append]; omega) caught.visit
        refine ⟨List.forall_mem_cons.mpr ⟨?_, fun other member => queued other (List.mem_append_left _ member)⟩, closed⟩
        exact graph.mem_visit fuel _ (List.mem_append_right _ List.mem_cons_self)

/-- A walk stays within whatever holds of its start and of all dependents. -/
theorem visit_within {within : String → Prop}
    (closed : ∀ path, within path → ∀ next ∈ graph.dependents path, within next) (fuel : Nat)
    {queue visited : List String} (inside : ∀ path ∈ visited ++ queue, within path) :
    ∀ path ∈ graph.visit fuel queue visited, within path := by
  induction fuel generalizing queue visited with
  | zero =>
    intro path member
    cases queue <;> exact inside path (List.mem_append_left _ member)
  | succ fuel ih =>
    cases queue with
    | nil => exact fun path member => inside path (List.mem_append_left _ member)
    | cons first rest =>
      rw [visit]
      split
      · refine ih fun path member => inside path ?_
        rcases List.mem_append.mp member with old | waiting
        · exact List.mem_append_left _ old
        · exact List.mem_append_right _ (List.mem_cons_of_mem _ waiting)
      · have start : within first := inside first (List.mem_append_right _ List.mem_cons_self)
        refine ih fun path member => ?_
        simp only [List.mem_append, List.mem_singleton, List.mem_filter] at member
        rcases member with (old | rfl) | waiting | ⟨depends, -⟩
        · exact inside path (List.mem_append_left _ old)
        · exact start
        · exact inside path (List.mem_append_right _ (List.mem_cons_of_mem _ waiting))
        · exact closed first start path depends

end

/-- The fuel of a cascade is all that can ever be queued. -/
theorem cascade_fuel (graph : Dependencies) (start : String) :
    [start].length + left [] graph.reverse.toList = graph.reverse.values.foldl (· + ·.size) 1 := by
  rw [SortedMap.values_eq_map, left_nil, List.length_singleton]

/-- A cascade lists exactly what relies on its start. -/
theorem Mirrored.mem_cascade_iff {graph : Dependencies} (mirrored : Mirrored graph) {start path : String} :
    path ∈ graph.cascade start ↔ graph.ReliesOn path start := by
  constructor
  · intro member
    have closed : ∀ path, graph.ReliesOn path start → ∀ next ∈ graph.dependents path, graph.ReliesOn next start :=
      fun path relies next depends => .head ((mirrored next path).mpr depends) relies
    have inside : ∀ path ∈ [] ++ [start], graph.ReliesOn path start := by
      intro other first
      rw [List.nil_append, List.mem_singleton] at first
      rw [first]
    exact visit_within graph closed _ inside path member
  · intro relies
    have enough := Nat.le_of_eq (graph.cascade_fuel start)
    obtain ⟨-, closed⟩ := visit_closed graph _ [start] [] enough (by simp [Caught])
    induction relies using ReflTransGen.head_induction_on with
    | refl => exact graph.mem_cascade start
    | head depends _ ih => exact (closed _ ih _ ((mirrored _ _).mp depends)).resolve_right List.not_mem_nil

end FreshDocs.Dependencies
