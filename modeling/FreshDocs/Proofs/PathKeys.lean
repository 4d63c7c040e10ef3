import FreshDocs.Path.Basic

/-! Keys of paths. A key is a path in its simplest spelling: it is its own key, and two paths have
the same key exactly if they lead through the same components once every detour is taken out. -/

namespace FreshDocs.Text

/-- Parts that do not contain the separator come back from the text they were joined to. -/
theorem split_intercalate {separator : Char} {parts : List (List Char)} (some : parts ≠ [])
    (free : ∀ part ∈ parts, separator ∉ part) : split separator ([separator].intercalate parts) = parts := by
  have whole {part : List Char} (free : separator ∉ part) : split separator part = [part] := by
    induction part with
    | nil => rfl
    | cons c rest ih =>
      rw [List.mem_cons, not_or] at free
      rw [split, if_neg (Ne.symm free.1), ih free.2]
  have leading {part rest : List Char} (free : separator ∉ part) :
      split separator (part ++ separator :: rest) = part :: split separator rest := by
    induction part with
    | nil => rw [List.nil_append, split, if_pos rfl]
    | cons c others ih =>
      rw [List.mem_cons, not_or] at free
      rw [List.cons_append, split, if_neg (Ne.symm free.1), ih free.2]
  induction parts with
  | nil => contradiction
  | cons part rest ih =>
    have first := free part List.mem_cons_self
    cases rest with
    | nil => simpa using whole first
    | cons next others =>
      have later := ih (by simp) fun part member => free part (List.mem_cons_of_mem _ member)
      rw [List.intercalate_cons_cons, List.append_assoc, List.singleton_append, leading first, later]

theorem not_mem_of_mem_split {separator : Char} {text part : List Char} (member : part ∈ split separator text) :
    separator ∉ part := by
  induction text generalizing part with
  | nil =>
    rw [split, List.mem_singleton] at member
    simp [member]
  | cons c rest ih =>
    rw [split] at member
    split at member
    next =>
      rcases List.mem_cons.mp member with rfl | later
      · exact List.not_mem_nil
      · exact ih later
    next other =>
      split at member
      next empty => exact (split_ne_nil separator rest empty).elim
      next first others shape =>
        rcases List.mem_cons.mp member with rfl | later
        · simp only [List.mem_cons, not_or]
          exact ⟨Ne.symm other, ih (shape ▸ List.mem_cons_self)⟩
        · exact ih (shape ▸ List.mem_cons_of_mem _ later)

private theorem join_eq_intercalate (separator : List Char) (parts : List (List Char)) :
    join separator parts = separator.intercalate parts := by
  induction parts with
  | nil => rfl
  | cons part rest ih =>
    cases rest with
    | nil => simp [join]
    | cons next others => rw [join, List.intercalate_cons_cons, ih]; simp

private theorem intercalate_sublist {separator : List Char} {few many : List (List Char)} (within : few.Sublist many) :
    (separator.intercalate few).Sublist (separator.intercalate many) := by
  induction within with
  | slnil => exact .refl _
  | @cons few many part within ih =>
    cases many with
    | nil =>
      rw [List.sublist_nil.mp within]
      exact List.nil_sublist _
    | cons next others =>
      rw [List.intercalate_cons_cons]
      exact ih.trans (List.sublist_append_right _ _)
  | @cons_cons few many part within ih =>
    cases many with
    | nil =>
      obtain rfl := List.sublist_nil.mp within
      exact .refl _
    | cons next others =>
      rw [List.intercalate_cons_cons]
      cases few with
      | nil =>
        rw [List.intercalate_singleton, List.append_assoc]
        exact List.sublist_append_left _ _
      | cons first more =>
        rw [List.intercalate_cons_cons]
        exact (List.Sublist.refl _).append ih

end FreshDocs.Text

namespace FreshDocs.Path

/-- A name that can stand between slashes and is read as a name there. -/
def Component.Proper : Component → Prop
  | .name text => text.toList ≠ [] ∧ '/' ∉ text.toList ∧ text.toList ≠ ['.'] ∧ text.toList ≠ ['.', '.']
  | _ => True

/-- The components of a spelling: a root and a `.` stand at the start only. -/
structure Spelled (components : List Component) : Prop where
  proper : ∀ component ∈ components, component.Proper
  inner : ∀ component ∈ components.tail, component ≠ .root ∧ component ≠ .here

theorem Spelled.tail {first : Component} {rest : List Component} (spelled : Spelled (first :: rest)) :
    Spelled rest :=
  ⟨fun component member => spelled.proper component (List.mem_cons_of_mem _ member),
    fun component member => spelled.inner component (List.mem_of_mem_tail member)⟩

/-! ### Spelling -/

private theorem ofPart_toText {component : Component} (proper : component.Proper) (inner : component ≠ .root ∧ component ≠ .here) :
    Component.ofPart component.toText.toList = component := by
  cases component with
  | root => exact (inner.1 rfl).elim
  | here => exact (inner.2 rfl).elim
  | up => rfl
  | name text =>
    obtain ⟨-, -, here, up⟩ := proper
    simp [Component.ofPart, Component.toText, here, up]

theorem toText_moves {component : Component} (proper : component.Proper) (inner : component ≠ .root ∧ component ≠ .here) :
    component.toText.toList ≠ [] ∧ component.toText.toList ≠ ['.'] ∧ '/' ∉ component.toText.toList := by
  cases component with
  | root => exact (inner.1 rfl).elim
  | here => exact (inner.2 rfl).elim
  | up => simp [Component.toText]
  | name text => exact ⟨proper.1, proper.2.2.1, proper.2.1⟩

private theorem movingParts_toText {components : List Component} (proper : ∀ component ∈ components, component.Proper)
    (inner : ∀ component ∈ components, component ≠ .root ∧ component ≠ .here) :
    movingParts (components.map (·.toText.toList)) = components := by
  induction components with
  | nil => rfl
  | cons first rest ih =>
    obtain ⟨filled, moving, -⟩ := toText_moves (proper first List.mem_cons_self) (inner first List.mem_cons_self)
    have later := ih (fun component member => proper component (List.mem_cons_of_mem _ member))
      fun component member => inner component (List.mem_cons_of_mem _ member)
    rw [movingParts] at later ⊢
    rw [List.map_cons, List.filter_cons_of_pos (by simp [filled, moving]), List.map_cons, later,
      ofPart_toText (proper first List.mem_cons_self) (inner first List.mem_cons_self)]

private theorem movingParts_nil_cons (parts : List (List Char)) : movingParts ([] :: parts) = movingParts parts := by
  simp [movingParts]

theorem components_of_here {path : Path} {parts : List (List Char)}
    (shape : Text.split '/' path.text.toList = ['.'] :: parts) : path.components = .here :: movingParts parts := by
  simp only [components, shape]

theorem components_of_other {path : Path} {first : List Char} {parts : List (List Char)}
    (shape : Text.split '/' path.text.toList = first :: parts) (other : first ≠ ['.']) :
    path.components =
      if path.isAbsolute then .root :: movingParts (first :: parts) else movingParts (first :: parts) := by
  rw [components, shape]
  split
  next here => exact (other (List.cons.inj here).1).elim
  next => rfl

private theorem split_spelled {components : List Component} (some : components ≠ [])
    (free : ∀ component ∈ components, '/' ∉ component.toText.toList) :
    Text.split '/' (String.intercalate "/" (components.map Component.toText)).toList =
      components.map (·.toText.toList) := by
  rw [String.toList_intercalate, List.map_map]
  refine Text.split_intercalate (by simpa using some) fun part member => ?_
  obtain ⟨component, listed, rfl⟩ := List.mem_map.mp member
  exact free component listed

theorem isAbsolute_of_split {path : Path} {first : List Char} {parts : List (List Char)}
    (shape : Text.split '/' path.text.toList = first :: parts) (filled : first ≠ []) : path.isAbsolute = false := by
  cases text : path.text.toList with
  | nil => simp [isAbsolute, text]
  | cons c rest =>
    have other : c ≠ '/' := by
      rintro rfl
      rw [text, Text.split, if_pos rfl] at shape
      exact filled (List.cons.inj shape).1.symm
    simpa [isAbsolute, text] using other

private theorem components_of_moving {components : List Component} (some : components ≠ [])
    (proper : ∀ component ∈ components, component.Proper)
    (inner : ∀ component ∈ components, component ≠ .root ∧ component ≠ .here) :
    (Path.mk (String.intercalate "/" (components.map Component.toText))).components = components := by
  have shape := split_spelled some fun component member =>
    (toText_moves (proper component member) (inner component member)).2.2
  have moved := movingParts_toText proper inner
  cases components with
  | nil => contradiction
  | cons first rest =>
    obtain ⟨filled, moving, -⟩ := toText_moves (proper first List.mem_cons_self) (inner first List.mem_cons_self)
    have shape : Text.split '/' (Path.mk (String.intercalate "/" ((first :: rest).map Component.toText))).text.toList =
      first.toText.toList :: rest.map (·.toText.toList) := shape
    rw [components_of_other shape moving, isAbsolute_of_split shape filled]
    exact moved

/-- A path is read as the components that it was spelled from. -/
theorem components_ofComponents {components : List Component} (spelled : Spelled components) :
    (ofComponents components).components = components := by
  cases components with
  | nil => rfl
  | cons first rest =>
    have inner := spelled.inner
    rw [List.tail_cons] at inner
    have proper := spelled.tail.proper
    have moved := movingParts_toText proper inner
    have free : ∀ component ∈ rest, '/' ∉ component.toText.toList :=
      fun component member => (toText_moves (proper component member) (inner component member)).2.2
    cases first with
    | root =>
      have text : (ofComponents (.root :: rest)).text.toList =
          '/' :: (String.intercalate "/" (rest.map Component.toText)).toList := by
        simp [ofComponents]
      have shape := congrArg (Text.split '/') text
      rw [Text.split, if_pos rfl] at shape
      rw [components_of_other shape (by simp), if_pos (by simp [isAbsolute, text]), movingParts_nil_cons]
      cases rest with
      | nil => rfl
      | cons next others => rw [split_spelled (by simp) free, moved]
    | here =>
      have shape : Text.split '/' (ofComponents (.here :: rest)).text.toList =
          (Component.here :: rest).map (·.toText.toList) :=
        split_spelled (by simp) (List.forall_mem_cons.mpr ⟨by simp [Component.toText], free⟩)
      rw [components_of_here shape, moved]
    | up =>
      exact components_of_moving (by simp) spelled.proper
        (List.forall_mem_cons.mpr ⟨by simp, inner⟩)
    | name text =>
      exact components_of_moving (by simp) spelled.proper
        (List.forall_mem_cons.mpr ⟨by simp, inner⟩)

theorem ofPart_proper {part : List Char} (filled : part ≠ []) (free : '/' ∉ part) :
    (Component.ofPart part).Proper := by
  unfold Component.ofPart
  split
  · trivial
  · split
    · trivial
    next here up => simpa [Component.Proper] using ⟨filled, free, here, up⟩

theorem movingParts_spelled {parts : List (List Char)} (free : ∀ part ∈ parts, '/' ∉ part) :
    ∀ component ∈ movingParts parts, component.Proper ∧ component ≠ .root ∧ component ≠ .here := by
  intro component member
  obtain ⟨part, kept, rfl⟩ := List.mem_map.mp member
  obtain ⟨listed, moving⟩ := List.mem_filter.mp kept
  have moving : part ≠ [] ∧ part ≠ ['.'] := by simpa using moving
  refine ⟨ofPart_proper moving.1 (free part listed), ?_⟩
  rw [Component.ofPart, if_neg moving.2]
  split <;> simp

theorem spelled_components (path : Path) : Spelled path.components := by
  have free : ∀ part ∈ Text.split '/' path.text.toList, '/' ∉ part := fun part => Text.not_mem_of_mem_split
  have behind {first : Component} {parts : List (List Char)} (proper : first.Proper)
      (free : ∀ part ∈ parts, '/' ∉ part) : Spelled (first :: movingParts parts) :=
    ⟨List.forall_mem_cons.mpr ⟨proper, fun component member => (movingParts_spelled free component member).1⟩,
      fun component member => (movingParts_spelled free component member).2⟩
  unfold components
  split
  next parts shape =>
    rw [shape] at free
    exact behind trivial fun part member => free part (List.mem_cons_of_mem _ member)
  next =>
    split
    · exact behind trivial free
    · exact ⟨fun component member => (movingParts_spelled free component member).1,
        fun component member => (movingParts_spelled free component (List.mem_of_mem_tail member)).2⟩

/-! ### Places -/

def place (path : Path) : List Component :=
  (path.components.foldl enter []).reverse

/-- A stack of components, the last one first, that leads nowhere back: a root is at its bottom, and
a `..` has nothing but others below it. -/
def Settled : List Component → Prop
  | [] => True
  | .name text :: rest => (Component.name text).Proper ∧ Settled rest
  | .up :: rest => ∀ component ∈ rest, component = .up
  | .root :: rest => rest = []
  | .here :: _ => False

theorem Settled.ups {stack : List Component} (ups : ∀ component ∈ stack, component = .up) : Settled stack := by
  cases stack with
  | nil => trivial
  | cons first rest =>
    obtain ⟨rfl, rest⟩ := List.forall_mem_cons.mp ups
    exact rest

theorem Settled.enter {stack : List Component} {next : Component} (settled : Settled stack) (proper : next.Proper)
    (start : next = .root → stack = []) : Settled (enter stack next) := by
  cases next with
  | here => exact settled
  | root =>
    rw [start rfl]
    exact rfl
  | name text => exact ⟨proper, settled⟩
  | up =>
    cases stack with
    | nil => exact fun component member => (List.not_mem_nil member).elim
    | cons top rest =>
      cases top with
      | here => exact settled.elim
      | root => exact settled
      | name text => exact settled.2
      | up => exact List.forall_mem_cons.mpr ⟨rfl, settled⟩

theorem Settled.foldl {components stack : List Component} (settled : Settled stack)
    (proper : ∀ component ∈ components, component.Proper) (inner : ∀ component ∈ components, component ≠ .root) :
    Settled (components.foldl Path.enter stack) := by
  induction components generalizing stack with
  | nil => exact settled
  | cons first rest ih =>
    have entered := settled.enter (proper first List.mem_cons_self)
      fun root => (inner first List.mem_cons_self root).elim
    exact ih entered (fun component member => proper component (List.mem_cons_of_mem _ member))
      fun component member => inner component (List.mem_cons_of_mem _ member)

theorem Spelled.settled {components : List Component} (spelled : Spelled components) :
    Settled (components.foldl enter []) := by
  cases components with
  | nil => trivial
  | cons first rest =>
    have first_settled : Settled (enter [] first) :=
      Settled.enter trivial (spelled.proper first List.mem_cons_self) fun _ => rfl
    exact first_settled.foldl spelled.tail.proper fun component member => (spelled.inner component member).1

/-- Nothing is taken back on the way along a settled stack. -/
theorem Settled.foldl_reverse {stack : List Component} (settled : Settled stack) :
    stack.reverse.foldl Path.enter [] = stack := by
  induction stack with
  | nil => rfl
  | cons top rest ih =>
    rw [List.reverse_cons, List.foldl_append, List.foldl_cons, List.foldl_nil]
    cases top with
    | here => exact settled.elim
    | root =>
      cases settled
      rfl
    | name text =>
      rw [ih settled.2]
      rfl
    | up =>
      rw [ih (Settled.ups settled)]
      cases rest with
      | nil => rfl
      | cons below others =>
        cases settled below List.mem_cons_self
        rfl

theorem Settled.spelled {stack : List Component} (settled : Settled stack) : Spelled stack.reverse := by
  have proper : ∀ component ∈ stack, component.Proper ∧ component ≠ .here := by
    induction stack with
    | nil => simp
    | cons top rest ih =>
      refine List.forall_mem_cons.mpr ?_
      cases top with
      | here => exact settled.elim
      | root =>
        cases settled
        exact ⟨⟨trivial, by simp⟩, by simp⟩
      | name text => exact ⟨⟨settled.1, by simp⟩, ih settled.2⟩
      | up => exact ⟨⟨trivial, by simp⟩, ih (Settled.ups settled)⟩
  have rootless : ∀ component ∈ stack.dropLast, component ≠ .root := by
    clear proper
    induction stack with
    | nil => simp
    | cons top rest ih =>
      cases rest with
      | nil => simp
      | cons below others =>
        rw [List.dropLast_cons_cons]
        have later : Settled (below :: others) ∧ top ≠ .root := by
          cases top with
          | here => exact settled.elim
          | root => cases settled
          | name text => exact ⟨settled.2, by simp⟩
          | up => exact ⟨Settled.ups settled, by simp⟩
        exact List.forall_mem_cons.mpr ⟨later.2, ih later.1⟩
  refine ⟨fun component member => (proper component (List.mem_reverse.mp member)).1, fun component member => ?_⟩
  rw [List.tail_reverse, List.mem_reverse] at member
  exact ⟨rootless component member, (proper component (List.dropLast_subset _ member)).2⟩

theorem components_normalize (path : Path) : path.normalize.components = path.place :=
  components_ofComponents (spelled_components path).settled.spelled

theorem place_normalize (path : Path) : path.normalize.place = path.place := by
  rw [place, components_normalize, place, (spelled_components path).settled.foldl_reverse]

/-- A key is its own key. -/
theorem key_key (path : Path) : (Path.mk path.key).key = path.key := by
  have same : (Path.mk path.key).place = path.place := place_normalize path
  exact congrArg (fun components => (ofComponents components).text) same

private theorem foldl_enter_sublist (components stack : List Component) :
    (components.foldl enter stack).reverse.Sublist (stack.reverse ++ components) := by
  have entered (stack : List Component) (next : Component) : (enter stack next).reverse.Sublist (stack.reverse ++ [next]) := by
    cases next with
    | here => exact List.sublist_append_left _ _
    | root | name => simp [enter]
    | up =>
      cases stack with
      | nil => exact .refl _
      | cons top rest => cases top <;> simp [enter]
  induction components generalizing stack with
  | nil => simp
  | cons first rest ih =>
    rw [List.foldl_cons, List.append_cons]
    exact (ih _).trans ((entered stack first).append (.refl rest))

private theorem toText_movingParts (parts : List (List Char)) :
    ((movingParts parts).map (·.toText.toList)).Sublist parts := by
  have same (part : List Char) : (Component.ofPart part).toText.toList = part := by
    unfold Component.ofPart
    split
    next here => simp [Component.toText, here]
    · split
      next up => simp [Component.toText, up]
      next => simp [Component.toText]
  have back : (movingParts parts).map (·.toText.toList) = parts.filter fun part => part ≠ [] && part ≠ ['.'] := by
    simp only [movingParts, List.map_map, Function.comp_def, same, List.map_id']
  rw [back]
  exact List.filter_sublist

theorem text_ofComponents_root (rest : List Component) :
    (ofComponents (.root :: rest)).text.toList = '/' :: ['/'].intercalate (rest.map (·.toText.toList)) := by
  simp [ofComponents, String.toList_intercalate, Function.comp_def]

theorem text_ofComponents {components : List Component} (rootless : .root ∉ components) :
    (ofComponents components).text.toList = ['/'].intercalate (components.map (·.toText.toList)) := by
  have text : (ofComponents components).text = String.intercalate "/" (components.map Component.toText) := by
    unfold ofComponents
    split
    · simp at rootless
    · rfl
  rw [text, String.toList_intercalate, List.map_map]
  rfl

/-- A key takes characters out of a path, and puts none in. -/
theorem key_sublist (path : Path) : path.key.toList.Sublist path.text.toList := by
  have within : path.place.Sublist path.components := foldl_enter_sublist path.components []
  have spelled := Text.join_split '/' path.text.toList
  rw [Text.join_eq_intercalate] at spelled
  have free : ∀ part ∈ Text.split '/' path.text.toList, '/' ∉ part := fun part => Text.not_mem_of_mem_split
  have relative (rootless : .root ∉ path.components)
      (texts : (path.components.map (·.toText.toList)).Sublist (Text.split '/' path.text.toList)) :
      path.key.toList.Sublist path.text.toList := by
    have text : path.key.toList = ['/'].intercalate (path.place.map (·.toText.toList)) :=
      text_ofComponents fun member => rootless (within.subset member)
    rw [text, ← spelled]
    exact Text.intercalate_sublist ((within.map _).trans texts)
  obtain ⟨first, rest, shape⟩ := List.exists_cons_of_ne_nil (Text.split_ne_nil '/' path.text.toList)
  rw [shape] at free relative spelled
  have moving (parts : List (List Char)) (free : ∀ part ∈ parts, '/' ∉ part) : .root ∉ movingParts parts :=
    fun member => (movingParts_spelled free _ member).2.1 rfl
  by_cases here : first = ['.']
  · subst here
    have components := components_of_here shape
    rw [components] at relative
    refine relative ?_ ((toText_movingParts rest).cons_cons _)
    simpa using moving rest fun part member => free part (List.mem_cons_of_mem _ member)
  · have components := components_of_other shape here
    by_cases absolute : path.isAbsolute
    · obtain ⟨text, begins⟩ : ∃ text, path.text.toList = '/' :: text := by
        simpa [isAbsolute, List.head?_eq_some_iff] using absolute
      rw [begins, Text.split, if_pos rfl] at shape
      obtain ⟨rfl, rfl⟩ := List.cons.inj shape
      rw [if_pos absolute, movingParts_nil_cons] at components
      have spelled := Text.join_split '/' text
      rw [Text.join_eq_intercalate] at spelled
      have texts := toText_movingParts (Text.split '/' text)
      rw [components] at within
      rw [begins]
      rcases List.sublist_cons_iff.mp within with later | ⟨rest, place, later⟩
      · have text : path.key.toList = ['/'].intercalate (path.place.map (·.toText.toList)) :=
          text_ofComponents fun member => moving _ (List.forall_mem_cons.mp free).2 (later.subset member)
        rw [text]
        refine List.Sublist.cons _ ?_
        rw [← spelled]
        exact Text.intercalate_sublist ((later.map _).trans texts)
      · have text : path.key.toList = '/' :: ['/'].intercalate (rest.map (·.toText.toList)) := by
          rw [← text_ofComponents_root, ← place]
          rfl
        rw [text]
        refine List.Sublist.cons_cons _ ?_
        rw [← spelled]
        exact Text.intercalate_sublist ((later.map _).trans texts)
    · rw [if_neg absolute] at components
      rw [components] at relative
      exact relative (moving _ free) (toText_movingParts _)

/-- Keys tell places apart. -/
theorem key_eq_iff {first second : Path} : first.key = second.key ↔ first.place = second.place := by
  constructor
  · intro same
    rw [← place_normalize first, ← place_normalize second]
    exact congrArg (fun text => (Path.mk text).place) same
  · exact fun same => congrArg (fun components => (ofComponents components).text) same

end FreshDocs.Path
