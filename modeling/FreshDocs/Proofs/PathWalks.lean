import FreshDocs.Proofs.PathAnchors

/-! Where a path leads from a directory. Two paths have one key exactly if they lead to the same location from every
directory: a key neither tells two spellings of a place apart nor mixes two places up. -/

namespace FreshDocs.Path

def Component.walk (location : List String) : Component → List String
  | .root => []
  | .here => location
  | .up => location.dropLast
  | .name text => location ++ [text]

def walk (base : List String) (path : Path) : List String :=
  path.components.foldl Component.walk base

section
variable (base : List String)

private theorem foldl_walk_enter (stack : List Component) (next : Component) :
    (enter stack next).reverse.foldl Component.walk base =
      Component.walk (stack.reverse.foldl Component.walk base) next := by
  cases next with
  | here => rfl
  | root | name text => simp [enter]
  | up =>
    cases stack with
    | nil => rfl
    | cons top rest => cases top <;> simp [enter, Component.walk]

private theorem foldl_walk_foldl (components stack : List Component) :
    (components.foldl enter stack).reverse.foldl Component.walk base =
      components.foldl Component.walk (stack.reverse.foldl Component.walk base) := by
  induction components generalizing stack with
  | nil => rfl
  | cons next rest ih => rw [List.foldl_cons, ih, foldl_walk_enter, List.foldl_cons]

/-- Detours do not matter to where a path leads. -/
theorem walk_eq_place (path : Path) : path.walk base = path.place.foldl Component.walk base :=
  (foldl_walk_foldl base path.components []).symm

private theorem foldl_walk_names (names : List String) :
    (names.map Component.name).foldl Component.walk base = base ++ names := by
  induction names generalizing base with
  | nil => simp
  | cons name rest ih => simp [ih, Component.walk]

private theorem foldl_walk_ups (ups : Nat) :
    (List.replicate ups Component.up).foldl Component.walk base = base.take (base.length - ups) := by
  induction ups generalizing base with
  | zero => simp
  | succ ups ih =>
    rw [List.replicate_succ, List.foldl_cons, ih, Component.walk, List.length_dropLast, List.dropLast_eq_take,
      List.take_take]
    congr 1
    omega

private theorem Settled.shape_of_root {stack : List Component} (settled : Settled stack) (rooted : .root ∈ stack) :
    ∃ names : List String, stack = names.map .name ++ [.root] := by
  induction stack with
  | nil => cases rooted
  | cons top rest ih =>
    cases top with
    | here => exact settled.elim
    | root => exact ⟨[], by rw [show rest = [] from settled, List.map_nil, List.nil_append]⟩
    | name text =>
      obtain ⟨names, rfl⟩ := ih settled.2 (by simpa using rooted)
      exact ⟨text :: names, rfl⟩
    | up => cases settled .root (by simpa using rooted)

private theorem place_of_absolute {path : Path} (absolute : path.isAbsolute = true) :
    ∃ names : List String, path.place = .root :: names.map .name := by
  have rooted := root_mem_place.mpr absolute
  rw [place, List.mem_reverse] at rooted
  obtain ⟨names, shape⟩ := (spelled_components path).settled.shape_of_root rooted
  exact ⟨names.reverse, by simp [place, shape]⟩

private theorem place_of_relative {path : Path} (relative : path.isAbsolute = false) :
    ∃ (ups : Nat) (names : List String), path.place = List.replicate ups .up ++ names.map .name := by
  have rootless : .root ∉ path.place := by simp [root_mem_place, relative]
  rw [place, List.mem_reverse] at rootless
  obtain ⟨names, ups, shape⟩ := (spelled_components path).settled.shape rootless
  exact ⟨ups, names.reverse, by simp [place, shape]⟩

private theorem walk_of_absolute {path : Path} {names : List String} (shape : path.place = .root :: names.map .name) :
    path.walk base = names := by
  rw [walk_eq_place, shape, List.foldl_cons, foldl_walk_names, Component.walk, List.nil_append]

private theorem walk_of_relative {path : Path} {ups : Nat} {names : List String}
    (shape : path.place = List.replicate ups .up ++ names.map .name) :
    path.walk base = base.take (base.length - ups) ++ names := by
  rw [walk_eq_place, shape, List.foldl_append, foldl_walk_ups, foldl_walk_names]

end

def nested (depth : Nat) : List String :=
  List.replicate depth "d"

private theorem proper_of_nested {depth : Nat} {name : String} (member : name ∈ nested depth) :
    (Component.name name).Proper := by
  rw [List.eq_of_mem_replicate member]
  simp [Component.Proper]

private theorem length_walk_nested {path : Path} {ups depth : Nat} {names : List String}
    (shape : path.place = List.replicate ups .up ++ names.map .name) :
    (path.walk (nested depth)).length = depth - ups + names.length := by
  simp [walk_of_relative _ shape, nested]

/-- From far enough below the root, a relative path leads deeper than an absolute one. -/
theorem exists_walk_ne {first second : Path} (absolute : first.isAbsolute = true) (relative : second.isAbsolute = false) :
    ∃ depth, first.walk (nested depth) ≠ second.walk (nested depth) := by
  obtain ⟨names, fixed⟩ := place_of_absolute absolute
  obtain ⟨ups, others, loose⟩ := place_of_relative relative
  refine ⟨ups + names.length + 1, fun same => ?_⟩
  have lengths := congrArg List.length same
  rw [walk_of_absolute _ fixed, length_walk_nested loose] at lengths
  omega

private theorem place_eq_of_walk {first second : Path}
    (same : ∀ depth, first.walk (nested depth) = second.walk (nested depth)) : first.place = second.place := by
  cases absolute : first.isAbsolute <;> cases other : second.isAbsolute
  case false.true =>
    obtain ⟨depth, differs⟩ := exists_walk_ne other absolute
    exact (differs (same depth).symm).elim
  case true.false =>
    obtain ⟨depth, differs⟩ := exists_walk_ne absolute other
    exact (differs (same depth)).elim
  case true.true =>
    obtain ⟨names, shape⟩ := place_of_absolute absolute
    obtain ⟨others, otherShape⟩ := place_of_absolute other
    have names : names = others := by rw [← walk_of_absolute _ shape, same 0, walk_of_absolute _ otherShape]
    rw [shape, otherShape, names]
  case false.false =>
    obtain ⟨ups, names, shape⟩ := place_of_relative absolute
    obtain ⟨otherUps, others, otherShape⟩ := place_of_relative other
    -- the names are what is reached from the root, and how far up comes first shows from below
    have names : names = others := by
      have reached := same 0
      simpa [walk_of_relative _ shape, walk_of_relative _ otherShape, nested] using reached
    have lengths := congrArg List.length (same (ups + otherUps))
    rw [length_walk_nested shape, length_walk_nested otherShape, names] at lengths
    have ups : ups = otherUps := by omega
    rw [shape, otherShape, names, ups]

theorem key_eq_iff_walk_eq (first second : Path) :
    (first.key = second.key ↔
      ∀ base : List String, (∀ name ∈ base, (Component.name name).Proper) → first.walk base = second.walk base) ∧
    first.normalize.key = first.key := by
  refine ⟨⟨fun same base _ => ?_, fun same => ?_⟩, key_key first⟩
  · rw [walk_eq_place, walk_eq_place, key_eq_iff.mp same]
  · exact key_eq_iff.mpr (place_eq_of_walk fun depth => same (nested depth) fun _ => proper_of_nested)

end FreshDocs.Path
