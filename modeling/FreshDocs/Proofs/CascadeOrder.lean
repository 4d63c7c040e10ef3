import FreshDocs.Proofs.DependencyCascade
import Mathlib.Order.Lattice.Nat

/-! The order of a cascade. Its walk comes to an end however the paths depend on each other, and lists the nearest
paths first: a path is never listed before one to which fewer dependencies lead. -/

namespace FreshDocs.Dependencies
open Relation

inductive Edit where
  | record (path : String) (targets : List String)
  | forget (path : String)
  | clear

def Edit.apply (graph : Dependencies) : Edit → Dependencies
  | .record path targets => graph.record path targets
  | .forget path => graph.forget path
  | .clear => empty

def edited (edits : List Edit) : Dependencies :=
  edits.foldl Edit.apply empty

theorem Mirrored.apply {graph : Dependencies} (mirrored : Mirrored graph) (edit : Edit) :
    Mirrored (edit.apply graph) := by
  cases edit with
  | record path targets => exact mirrored.record path targets
  | forget path => exact mirrored.forget path
  | clear => exact .empty

private theorem edited_mirrored (edits : List Edit) : Mirrored (edited edits) := by
  have kept (graph : Dependencies) (mirrored : Mirrored graph) : Mirrored (edits.foldl Edit.apply graph) := by
    induction edits generalizing graph with
    | nil => exact mirrored
    | cons edit rest ih => exact ih _ (mirrored.apply edit)
  exact kept empty .empty

/-! ### Walks -/

/-- A walk takes the paths of a queue one by one until none is left, and the last list is what it has listed then. -/
inductive Walks (graph : Dependencies) : (queue visited listed : List String) → Prop where
  | stop (visited : List String) : Walks graph [] visited visited
  | skip {path : String} {rest visited listed : List String} (seen : path ∈ visited)
      (later : Walks graph rest visited listed) : Walks graph (path :: rest) visited listed
  | visit {path : String} {rest visited listed : List String} (new : path ∉ visited)
      (later : Walks graph (rest ++ (graph.dependents path).filter (!(visited ++ [path]).contains ·))
        (visited ++ [path]) listed) :
      Walks graph (path :: rest) visited listed

section
variable {graph : Dependencies} {queue visited listed : List String}

/-- With fuel for all that can still be queued, a walk comes to its end. -/
theorem visit_walks (fuel : Nat) (enough : queue.length + left visited graph.reverse.toList ≤ fuel) :
    graph.Walks queue visited (graph.visit fuel queue visited) := by
  induction fuel generalizing queue visited with
  | zero =>
    cases queue with
    | nil => exact .stop visited
    | cons path rest =>
      rw [List.length_cons] at enough
      omega
  | succ fuel ih =>
    cases queue with
    | nil => exact .stop visited
    | cons path rest =>
      rw [List.length_cons] at enough
      rw [visit]
      by_cases seen : path ∈ visited
      · rw [if_pos (List.contains_iff_mem.mpr seen)]
        exact .skip seen (ih (by omega))
      · rw [if_neg (by simpa using seen)]
        have fewer := graph.left_dependents seen
        have short := List.length_filter_le (fun next => !(visited ++ [path]).contains next) (graph.dependents path)
        exact .visit seen (ih (by rw [List.length_append]; omega))

private theorem cascade_walks (graph : Dependencies) (start : String) : graph.Walks [start] [] (graph.cascade start) :=
  visit_walks _ (Nat.le_of_eq (graph.cascade_fuel start))

private theorem Walks.visited_isPrefix (walks : graph.Walks queue visited listed) : visited <+: listed := by
  induction walks with
  | stop visited => exact List.prefix_rfl
  | skip seen later ih => exact ih
  | visit new later ih => exact (List.prefix_append _ _).trans ih

theorem Walks.nodup (walks : graph.Walks queue visited listed) (distinct : visited.Nodup) : listed.Nodup := by
  induction walks with
  | stop visited => exact distinct
  | skip seen later ih => exact ih distinct
  | visit new later ih =>
    refine ih (List.nodup_append.mpr ⟨distinct, List.nodup_singleton _, ?_⟩)
    intro other seen path single same
    exact new (List.mem_singleton.mp single ▸ same ▸ seen)

private theorem head_cascade (graph : Dependencies) (start : String) : (graph.cascade start).head? = some start := by
  cases graph.cascade_walks start with
  | skip seen => cases seen
  | visit _ later =>
    obtain ⟨rest, listed⟩ := later.visited_isPrefix
    rw [← listed]
    rfl

end

/-! ### Distances -/

/-- So many dependencies lead from the first path to the second. -/
def Chain (graph : Dependencies) : Nat → String → String → Prop
  | 0, path, start => path = start
  | steps + 1, path, start => ∃ next, graph.DependsOn path next ∧ Chain graph steps next start

/-- The least number of dependencies that lead from a path to the start. -/
noncomputable def distance (graph : Dependencies) (start path : String) : Nat :=
  sInf {steps | graph.Chain steps path start}

section
variable {graph : Dependencies} {start path : String}

private theorem Chain.distance_le {steps : Nat} (chain : graph.Chain steps path start) : graph.distance start path ≤ steps :=
  Nat.sInf_le chain

private theorem ReliesOn.exists_chain (relies : graph.ReliesOn path start) : ∃ steps, graph.Chain steps path start := by
  induction relies using ReflTransGen.head_induction_on with
  | refl => exact ⟨0, rfl⟩
  | head depends _ ih =>
    obtain ⟨steps, chain⟩ := ih
    exact ⟨steps + 1, _, depends, chain⟩

private theorem Chain.at_distance {steps : Nat} (chain : graph.Chain steps path start) :
    graph.Chain (graph.distance start path) path start := by
  have some : {steps | graph.Chain steps path start}.Nonempty := ⟨steps, chain⟩
  exact Nat.sInf_mem some

end

/-! ### The order of a walk -/

/-- Where a walk is: each path in the queue with the length of the way it was found on. No way in the queue is
shorter than one before it, or longer than the first by more than one. -/
structure Level (graph : Dependencies) (start : String) (queue : List (String × Nat)) (visited : List String) :
    Prop where
  found : ∀ entry ∈ queue, graph.Chain entry.2 entry.1 start
  ordered : queue.Pairwise (·.2 ≤ ·.2)
  narrow : ∀ first ∈ queue, ∀ second ∈ queue, second.2 ≤ first.2 + 1
  behind : ∀ path ∈ visited, ∀ entry ∈ queue, graph.distance start path ≤ entry.2
  caught : ∀ path ∈ visited, ∀ next ∈ graph.dependents path,
    next ∈ visited ∨ ∃ entry ∈ queue, entry.1 = next ∧ entry.2 ≤ graph.distance start path + 1
  sorted : visited.Pairwise (graph.distance start · ≤ graph.distance start ·)
  begun : start ∈ visited ∨ (start, 0) ∈ queue

namespace Level
variable {graph : Dependencies} {start path : String} {length : Nat} {rest : List (String × Nat)} {visited : List String}

theorem initial (graph : Dependencies) (start : String) : Level graph start [(start, 0)] [] where
  found := by simp [Chain]
  ordered := List.pairwise_singleton _ _
  narrow := by simp
  behind := by simp
  caught := by simp
  sorted := .nil
  begun := .inr (List.mem_singleton_self _)

/-- Every chain to a path that was not visited yet leaves the visited paths somewhere, and there the path is queued. -/
theorem le_of_chain (level : Level graph start ((path, length) :: rest) visited) (mirrored : graph.Mirrored)
    {steps : Nat} {other : String} (new : other ∉ visited) (chain : graph.Chain steps other start) : length ≤ steps := by
  have first : ∀ entry ∈ (path, length) :: rest, length ≤ entry.2 :=
    List.forall_mem_cons.mpr ⟨Nat.le_refl _, (List.pairwise_cons.mp level.ordered).1⟩
  induction steps generalizing other with
  | zero =>
    obtain rfl : other = start := chain
    exact first _ (level.begun.resolve_left new)
  | succ steps ih =>
    obtain ⟨next, depends, chain⟩ := chain
    by_cases seen : next ∈ visited
    · obtain ⟨entry, queued, -, short⟩ := (level.caught next seen other ((mirrored other next).mp depends)).resolve_left new
      have near := chain.distance_le
      have least := first entry queued
      omega
    · exact Nat.le_succ_of_le (ih seen chain)

private theorem distance_eq (level : Level graph start ((path, length) :: rest) visited) (mirrored : graph.Mirrored)
    (new : path ∉ visited) : graph.distance start path = length := by
  have chain : graph.Chain length path start := level.found _ List.mem_cons_self
  exact Nat.le_antisymm chain.distance_le (level.le_of_chain mirrored new chain.at_distance)

theorem skip (level : Level graph start ((path, length) :: rest) visited) (seen : path ∈ visited) :
    Level graph start rest visited where
  found entry member := level.found entry (List.mem_cons_of_mem _ member)
  ordered := (List.pairwise_cons.mp level.ordered).2
  narrow first one second two :=
    level.narrow first (List.mem_cons_of_mem _ one) second (List.mem_cons_of_mem _ two)
  behind other old entry member := level.behind other old entry (List.mem_cons_of_mem _ member)
  caught other old next depends := by
    rcases level.caught other old next depends with listed | ⟨entry, queued, rfl, short⟩
    · exact .inl listed
    · rcases List.mem_cons.mp queued with rfl | later
      · exact .inl seen
      · exact .inr ⟨entry, later, rfl, short⟩
  sorted := level.sorted
  begun := by
    rcases level.begun with listed | queued
    · exact .inl listed
    · rcases List.mem_cons.mp queued with same | later
      · cases same
        exact .inl seen
      · exact .inr later

theorem visit (level : Level graph start ((path, length) :: rest) visited) (mirrored : graph.Mirrored)
    (new : path ∉ visited) :
    Level graph start
      (rest ++ ((graph.dependents path).filter (!(visited ++ [path]).contains ·)).map (·, length + 1))
      (visited ++ [path]) := by
  have here := level.distance_eq mirrored new
  obtain ⟨after, ordered⟩ := List.pairwise_cons.mp level.ordered
  have fresh : ∀ entry ∈ ((graph.dependents path).filter (!(visited ++ [path]).contains ·)).map (·, length + 1),
      entry.1 ∈ graph.dependents path ∧ entry.2 = length + 1 := by
    intro entry member
    obtain ⟨next, listed, rfl⟩ := List.mem_map.mp member
    exact ⟨(List.mem_filter.mp listed).1, rfl⟩
  have close : ∀ entry ∈ rest ++ ((graph.dependents path).filter (!(visited ++ [path]).contains ·)).map (·, length + 1),
      length ≤ entry.2 ∧ entry.2 ≤ length + 1 := by
    intro entry member
    rcases List.mem_append.mp member with old | new
    · exact ⟨after entry old, level.narrow _ List.mem_cons_self entry (List.mem_cons_of_mem _ old)⟩
    · rw [(fresh entry new).2]
      exact ⟨Nat.le_succ _, Nat.le_refl _⟩
  constructor
  case found =>
    refine List.forall_mem_append.mpr ⟨fun entry member => level.found entry (List.mem_cons_of_mem _ member), ?_⟩
    intro entry member
    obtain ⟨depends, long⟩ := fresh entry member
    rw [long]
    exact ⟨path, (mirrored entry.1 path).mpr depends, level.found _ List.mem_cons_self⟩
  case ordered =>
    refine List.pairwise_append.mpr ⟨ordered, ?_, ?_⟩
    · exact List.pairwise_map.mpr (List.pairwise_of_forall fun _ _ => Nat.le_refl _)
    · intro first one second two
      rw [(fresh second two).2]
      exact (close first (List.mem_append_left _ one)).2
  case narrow =>
    intro first one second two
    have low := (close first one).1
    have high := (close second two).2
    omega
  case behind =>
    intro other listed entry queued
    have low := (close entry queued).1
    rcases List.mem_append.mp listed with old | new
    · exact Nat.le_trans (level.behind other old _ List.mem_cons_self) low
    · rw [List.mem_singleton.mp new, here]
      exact low
  case caught =>
    intro other listed next depends
    by_cases seen : next ∈ visited ++ [path]
    · exact .inl seen
    right
    rcases List.mem_append.mp listed with old | new
    · rcases level.caught other old next depends with visited | ⟨entry, queued, rfl, short⟩
      · exact (seen (List.mem_append_left _ visited)).elim
      · rcases List.mem_cons.mp queued with rfl | later
        · exact (seen (List.mem_append_right _ List.mem_cons_self)).elim
        · exact ⟨entry, List.mem_append_left _ later, rfl, short⟩
    · obtain rfl := List.mem_singleton.mp new
      refine ⟨(next, length + 1), List.mem_append_right _ (List.mem_map_of_mem ?_), rfl, ?_⟩
      · exact List.mem_filter.mpr ⟨depends, by simpa using seen⟩
      · rw [here]
  case sorted =>
    refine List.pairwise_append.mpr ⟨level.sorted, List.pairwise_singleton _ _, ?_⟩
    intro other old last single
    rw [List.mem_singleton.mp single, here]
    exact level.behind other old _ List.mem_cons_self
  case begun =>
    rcases level.begun with old | queued
    · exact .inl (List.mem_append_left _ old)
    · rcases List.mem_cons.mp queued with same | later
      · cases same
        exact .inl (List.mem_append_right _ List.mem_cons_self)
      · exact .inr (List.mem_append_left _ later)

end Level

/-- A walk that is at a level lists the paths by their distance. -/
theorem Walks.sorted {graph : Dependencies} (mirrored : graph.Mirrored) {start : String} {queue visited listed : List String}
    (walks : graph.Walks queue visited listed) {entries : List (String × Nat)} (shape : entries.map Prod.fst = queue)
    (level : Level graph start entries visited) : listed.Pairwise (graph.distance start · ≤ graph.distance start ·) := by
  induction walks generalizing entries with
  | stop visited => exact level.sorted
  | skip seen later ih =>
    obtain ⟨entry, rest, rfl, rfl, rfl⟩ := List.map_eq_cons_iff.mp shape
    exact ih rfl (level.skip seen)
  | visit new later ih =>
    obtain ⟨entry, rest, rfl, rfl, rfl⟩ := List.map_eq_cons_iff.mp shape
    refine ih ?_ (level.visit mirrored new)
    rw [List.map_append, List.map_map]
    exact congrArg _ (List.map_id _)

/-- However the paths depend on each other, the walk of a cascade comes to its end. It begins with the start, lists
that and all paths that rely on it, each once, and never a path before one that is nearer to the start. -/
theorem cascade_breadth_first (edits : List Edit) (start : String) :
    let graph := edited edits
    let listed := graph.cascade start
    graph.Walks [start] [] listed ∧ listed.Nodup ∧ listed.head? = some start ∧
      (∀ path, path ∈ listed ↔ graph.ReliesOn path start) ∧
      (∀ path ∈ listed, graph.Chain (graph.distance start path) path start) ∧
      listed.Pairwise fun first second => graph.distance start first ≤ graph.distance start second := by
  intro graph listed
  have mirrored := edited_mirrored edits
  have walks := graph.cascade_walks start
  refine ⟨walks, walks.nodup List.nodup_nil, graph.head_cascade start, ?_, ?_, ?_⟩
  · exact fun path => mirrored.mem_cascade_iff
  · intro path member
    obtain ⟨steps, chain⟩ := ReliesOn.exists_chain (mirrored.mem_cascade_iff.mp member)
    exact chain.at_distance
  · exact walks.sorted mirrored rfl (Level.initial graph start)

end FreshDocs.Dependencies
