import FreshDocs.Proofs.PathDescents
import Mathlib.Algebra.BigOperators.Group.List.Basic
import Mathlib.Algebra.Order.Ring.Int

/-! Paths that are resolved more than once. What a relative path resolves to from a relative root is relative
again, and resolving it again leads further, unless the root leads nowhere: unless it goes down as often as up. -/

namespace FreshDocs.Path

/-- How far a component leads down. -/
def Component.fall : Component → Int
  | .name _ => 1
  | .up => -1
  | .root | .here => 0

def fall (components : List Component) : Int :=
  (components.map Component.fall).sum

/-- Relative paths mean the same from this root however often they are resolved. -/
def Anchored (root : Path) : Prop :=
  root.isAbsolute = true ∨ fall root.components = 0

section
variable {components stack : List Component}

private theorem fall_enter (rootless : .root ∉ stack) {next : Component} (other : next ≠ .root) :
    fall (enter stack next) = next.fall + fall stack := by
  cases next with
  | root => contradiction
  | here => simp [enter, fall, Component.fall]
  | name text => simp [enter, fall]
  | up =>
    cases stack with
    | nil => rfl
    | cons top rest =>
      cases top with
      | root => simp at rootless
      | name text => simp [enter, fall, Component.fall]
      | here | up => simp [enter, fall]

/-- Taking out detours does not change how far a path leads down. -/
theorem fall_foldl (rootless : .root ∉ stack) (relative : .root ∉ components) :
    fall (components.foldl enter stack) = fall components + fall stack := by
  induction components generalizing stack with
  | nil => simp [fall]
  | cons first rest ih =>
    rw [List.mem_cons, not_or] at relative
    have entered : .root ∉ enter stack first := fun member =>
      rootless ((@root_mem_foldl [first] stack (by simpa using relative.1)).mp member)
    rw [List.foldl_cons, ih entered relative.2, fall_enter rootless (Ne.symm relative.1)]
    simp only [fall, List.map_cons, List.sum_cons]
    omega

private theorem fall_reverse (components : List Component) : fall components.reverse = fall components := by
  rw [fall, List.map_reverse, List.sum_reverse, fall]

private theorem count_up_foldl : stack.count .up ≤ (components.foldl enter stack).count .up := by
  have entered (stack : List Component) (next : Component) : stack.count .up ≤ (enter stack next).count .up := by
    cases next with
    | here => exact Nat.le_refl _
    | root | name => simp [enter]
    | up =>
      cases stack with
      | nil => simp
      | cons top rest => cases top <;> simp [enter]
  induction components generalizing stack with
  | nil => exact Nat.le_refl _
  | cons first rest ih => exact Nat.le_trans (entered stack first) ih

/-- Without a root, a settled stack has names above every `..`. -/
theorem Settled.shape (settled : Settled stack) (rootless : .root ∉ stack) :
    ∃ (names : List String) (ups : Nat), stack = names.map .name ++ List.replicate ups .up := by
  induction stack with
  | nil => exact ⟨[], 0, rfl⟩
  | cons top rest ih =>
    rw [List.mem_cons, not_or] at rootless
    cases top with
    | root => exact (rootless.1 rfl).elim
    | here => exact settled.elim
    | name text =>
      obtain ⟨names, ups, rfl⟩ := ih settled.2 rootless.2
      exact ⟨text :: names, ups, rfl⟩
    | up => exact ⟨[], rest.length + 1, List.eq_replicate_iff.mpr ⟨rfl, List.forall_mem_cons.mpr ⟨rfl, settled⟩⟩⟩

private theorem enter_up (count : Nat) : enter (List.replicate count .up) .up = List.replicate (count + 1) .up := by
  cases count <;> rfl

private theorem foldl_ups (names : List String) (below more : Nat) :
    (List.replicate (names.length + more) Component.up).foldl enter (names.map .name ++ List.replicate below .up) =
      List.replicate (below + more) .up := by
  induction names with
  | nil =>
    induction more generalizing below with
    | zero => simp
    | succ more ih =>
      have later := ih (below + 1)
      simp only [List.length_nil, Nat.zero_add, List.map_nil, List.nil_append] at later ⊢
      rw [List.replicate_succ, List.foldl_cons, enter_up, later]
      congr 1
      omega
  | cons name rest ih =>
    rw [List.length_cons, Nat.add_right_comm, List.replicate_succ, List.foldl_cons]
    exact ih

/-- What is entered from a root that leads nowhere can be entered from it again. -/
theorem foldl_reverse_foldl (settled : Settled stack) (rootless : .root ∉ stack) (level : fall stack = 0)
    (proper : ∀ component ∈ components, component.Proper) (relative : .root ∉ components) :
    (components.foldl enter stack).reverse.foldl enter stack = components.foldl enter stack := by
  have later : Settled (components.foldl enter stack) :=
    settled.foldl proper fun component member same => relative (same ▸ member)
  obtain ⟨others, ups, end_shape⟩ := later.shape (by rwa [root_mem_foldl relative])
  have kept := @count_up_foldl components stack
  rw [end_shape] at kept ⊢
  obtain ⟨names, below, rfl⟩ := settled.shape rootless
  have counted (names : List String) (ups : Nat) : (names.map Component.name ++ List.replicate ups Component.up).count .up = ups := by
    simp [List.count_append, List.count_eq_zero]
  have level : below = names.length := by
    simp [fall, Component.fall, Function.comp_def] at level
    omega
  -- As many names as there are `..` in the stack lead down, and the `..` of what was entered undo them first.
  rw [counted, counted] at kept
  obtain ⟨more, rfl⟩ := Nat.exists_eq_add_of_le (level ▸ kept)
  rw [List.reverse_append, List.reverse_replicate, List.foldl_append, foldl_ups, ← List.map_reverse, foldl_enter_names,
    ← List.map_reverse, List.reverse_reverse, level]

end

/-! ### Resolution -/

section
variable {base root path : Path}

theorem movingParts_append (first second : List (List Char)) :
    movingParts (first ++ second) = movingParts first ++ movingParts second := by
  rw [movingParts, List.filter_append, List.map_append, movingParts, movingParts]

theorem components_relative (relative : path.isAbsolute = false) :
    path.components = movingParts (Text.split '/' path.text.toList) ∨
      path.components = .here :: movingParts (Text.split '/' path.text.toList) := by
  obtain ⟨first, rest, shape⟩ := List.exists_cons_of_ne_nil (Text.split_ne_nil '/' path.text.toList)
  rw [shape]
  by_cases here : first = ['.']
  · subst here
    right
    rw [components_of_here shape]
    simp [movingParts]
  · left
    rw [components_of_other shape here, if_neg (by simp [relative])]

theorem rootless_components (relative : path.isAbsolute = false) : .root ∉ path.components := by
  rcases components_relative relative with shape | shape
  · rw [shape]
    exact path.rootless_moving
  · rw [shape, List.mem_cons, not_or]
    exact ⟨by simp, path.rootless_moving⟩

private theorem foldl_components (relative : path.isAbsolute = false) (stack : List Component) :
    path.components.foldl enter stack = (movingParts (Text.split '/' path.text.toList)).foldl enter stack := by
  rcases components_relative relative with shape | shape
  · rw [shape]
  · rw [shape]
    rfl

/-- A relative path is entered from the place of its base. -/
theorem place_join (relative : path.isAbsolute = false) :
    (base.join path).place.reverse = path.components.foldl enter base.place.reverse := by
  rw [foldl_components relative]
  by_cases empty : base.text = ""
  · have same : base.join path = path := by
      rw [join, if_neg (by simp [relative]), if_pos (by simp [empty])]
    have start : base.place = [] := by
      cases base
      cases empty
      rfl
    rw [same, place_parts, relative, start]
    rfl
  · obtain ⟨c, rest, filled⟩ : ∃ c rest, base.text.toList = c :: rest :=
      List.exists_cons_of_ne_nil (by simpa using empty)
    have joined : (base.join path).isAbsolute = base.isAbsolute ∧
        movingParts (Text.split '/' (base.join path).text.toList) =
          movingParts (Text.split '/' base.text.toList) ++ movingParts (Text.split '/' path.text.toList) := by
      rw [join, if_neg (by simp [relative]), if_neg (by simp [empty])]
      split
      next slash =>
        obtain ⟨front, shape⟩ := List.getLast?_eq_some_iff.mp slash
        refine ⟨by simp [isAbsolute, filled], ?_⟩
        rw [String.toList_append, shape, List.append_assoc, List.singleton_append, Text.split_append_separator,
          Text.split_append_separator, movingParts_append, movingParts_append]
        simp [movingParts, Text.split]
      next =>
        refine ⟨by simp [isAbsolute, filled], ?_⟩
        rw [String.toList_append, String.toList_append, List.append_assoc]
        exact (congrArg movingParts (Text.split_append_separator '/' _ _)).trans (movingParts_append _ _)
    rw [place_parts, joined.1, joined.2, List.foldl_append, place_parts]

theorem key_resolve (root path : Path) : Path.mk (root.resolve path).key = root.resolve path := by
  have same (path : Path) : Path.mk path.normalize.key = path.normalize := congrArg Path.mk (key_key path)
  unfold resolve
  split
  · exact same path
  · exact same _

theorem key_join (root path : Path) : (root.join path).key = (root.resolve path).text := by
  unfold resolve
  split
  next absolute => rw [join, if_pos absolute, key]
  next => rw [key]

theorem isAbsolute_normalize (path : Path) : path.normalize.isAbsolute = path.isAbsolute := by
  rw [Bool.eq_iff_iff, ← root_mem_place, ← root_mem_place, place_normalize]

theorem normalize_eq_iff {first second : Path} : first.normalize = second.normalize ↔ first.place = second.place := by
  rw [← key_eq_iff]
  exact ⟨congrArg Path.text, congrArg Path.mk⟩

private theorem fall_place (loose : root.isAbsolute = false) : fall root.place.reverse = fall root.components := by
  rw [place, List.reverse_reverse, fall_foldl List.not_mem_nil (rootless_components loose)]
  simp [fall]

private theorem components_resolve (root path : Path) : (root.resolve path).components = (root.resolve path).place := by
  unfold resolve
  split <;> rw [components_normalize, place_normalize]

theorem isAbsolute_resolve (relative : path.isAbsolute = false) : (root.resolve path).isAbsolute = root.isAbsolute := by
  rw [resolve, if_neg (by simp [relative]), isAbsolute_normalize, Bool.eq_iff_iff, ← root_mem_place, ← List.mem_reverse,
    place_join relative, root_mem_foldl (rootless_components relative), List.mem_reverse, root_mem_place]

theorem resolve_of_absolute (absolute : path.isAbsolute = true) : root.resolve path = path.normalize :=
  if_pos absolute

theorem resolve_of_relative (relative : path.isAbsolute = false) : root.resolve path = (root.join path).normalize :=
  if_neg (by simp [relative])

theorem fall_resolve (relative : path.isAbsolute = false) (loose : root.isAbsolute = false) :
    fall (root.resolve path).components = fall root.components + fall path.components := by
  have start : .root ∉ root.place.reverse := by
    rw [List.mem_reverse, root_mem_place, loose]
    exact Bool.false_ne_true
  rw [components_resolve, resolve_of_relative relative, place_normalize, ← fall_reverse, place_join relative,
    fall_foldl start (rootless_components relative), fall_place loose, Int.add_comm]

theorem resolve_resolve_iff (root path : Path) :
    root.resolve (root.resolve path) = root.resolve path ↔ path.isAbsolute = true ∨ root.Anchored := by
  have settled (again : (root.resolve path).isAbsolute = true) : root.resolve (root.resolve path) = root.resolve path := by
    rw [resolve_of_absolute again]
    exact key_resolve root path
  by_cases absolute : path.isAbsolute = true
  · refine iff_of_true (settled ?_) (.inl absolute)
    rw [resolve_of_absolute absolute, isAbsolute_normalize, absolute]
  have relative : path.isAbsolute = false := by simpa using absolute
  by_cases fixed : root.isAbsolute = true
  · exact iff_of_true (settled ((isAbsolute_resolve relative).trans fixed)) (.inr (.inl fixed))
  have loose : root.isAbsolute = false := by simpa using fixed
  have again : (root.resolve path).isAbsolute = false := (isAbsolute_resolve relative).trans loose
  rw [Anchored, eq_false fixed, eq_false absolute, false_or, false_or]
  constructor
  · intro back
    have further := fall_resolve again loose
    rw [back] at further
    omega
  · intro level
    rw [resolve_of_relative again, resolve_of_relative relative, normalize_eq_iff]
    apply List.reverse_injective
    rw [← resolve_of_relative relative, place_join again, components_resolve, resolve_of_relative relative, place_normalize,
      ← List.reverse_reverse (root.join path).place, place_join relative, List.reverse_reverse]
    apply foldl_reverse_foldl
    · rw [place, List.reverse_reverse]
      exact (spelled_components root).settled
    · rw [List.mem_reverse, root_mem_place, loose]
      exact Bool.false_ne_true
    · rw [fall_place loose]
      exact level
    · exact (spelled_components path).proper
    · exact rootless_components relative

end
end FreshDocs.Path
