import FreshDocs.Proofs.PathKeys

/-! Paths that lead on from a directory, one name after the other. They are spelled as the directory
is, but what is known of them by their keys depends on the place of the directory only. -/

namespace FreshDocs.Text

theorem split_append_separator (separator : Char) (front back : List Char) :
    split separator (front ++ separator :: back) = split separator front ++ split separator back := by
  induction front with
  | nil => simp [split]
  | cons c rest ih =>
    rw [List.cons_append, split, split]
    split
    · rw [ih, List.cons_append]
    next =>
      rw [ih]
      cases shape : split separator rest with
      | nil => exact (split_ne_nil separator rest shape).elim
      | cons part parts => rfl

private theorem split_of_free {separator : Char} {text : List Char} (free : separator ∉ text) : split separator text = [text] := by
  have whole := @split_intercalate separator [text] (by simp) (by simpa using free)
  simpa using whole

theorem utf8ByteSize_le {few many : String} (within : few.toList.Sublist many.toList) :
    few.utf8ByteSize ≤ many.utf8ByteSize := by
  have lists {few many : List Char} (within : few.Sublist many) :
      (String.ofList few).utf8ByteSize ≤ (String.ofList many).utf8ByteSize := by
    induction within with
    | slnil => exact Nat.le_refl _
    | cons c _ ih =>
      rw [String.ofList_cons, String.utf8ByteSize_append]
      exact Nat.le_add_left_of_le ih
    | cons_cons c _ ih =>
      rw [String.ofList_cons, String.ofList_cons, String.utf8ByteSize_append, String.utf8ByteSize_append]
      exact Nat.add_le_add_left ih _
  simpa using lists within

end FreshDocs.Text

namespace FreshDocs.Path

def down (path : Path) (names : List String) : Path :=
  names.foldl (fun path name => path.join ⟨name⟩) path

/-- The parts of a path without those that a slash at its end leaves. -/
def Parts (path : Path) (parts : List (List Char)) : Prop :=
  parts ≠ [] ∧ (Text.split '/' path.text.toList = parts ∨ Text.split '/' path.text.toList = parts ++ [[]])

/-- A path enters its parts one after the other. -/
theorem place_parts (path : Path) : path.place.reverse =
    (movingParts (Text.split '/' path.text.toList)).foldl enter (if path.isAbsolute then [.root] else []) := by
  obtain ⟨first, rest, shape⟩ := List.exists_cons_of_ne_nil (Text.split_ne_nil '/' path.text.toList)
  rw [place, List.reverse_reverse, shape]
  by_cases here : first = ['.']
  · subst here
    rw [components_of_here shape, isAbsolute_of_split shape (by simp)]
    simp [movingParts, enter]
  · rw [components_of_other shape here]
    split
    · rfl
    · rfl

theorem root_mem_foldl {components stack : List Component} (rootless : .root ∉ components) :
    .root ∈ components.foldl enter stack ↔ .root ∈ stack := by
  induction components generalizing stack with
  | nil => rfl
  | cons first rest ih =>
    rw [List.mem_cons, not_or] at rootless
    rw [List.foldl_cons, ih rootless.2]
    cases first with
    | root => exact (rootless.1 rfl).elim
    | here | name => simp [enter]
    | up =>
      cases stack with
      | nil => simp [enter]
      | cons top rest => cases top <;> simp [enter]

theorem rootless_moving (path : Path) : .root ∉ movingParts (Text.split '/' path.text.toList) :=
  fun member => (movingParts_spelled (fun _ => Text.not_mem_of_mem_split) _ member).2.1 rfl

theorem root_mem_place {path : Path} : .root ∈ path.place ↔ path.isAbsolute = true := by
  rw [← List.mem_reverse, place_parts, root_mem_foldl path.rootless_moving]
  split <;> simp_all

section
variable {path : Path} {name : String} (proper : (Component.name name).Proper) (filled : path.text.toList ≠ [])
include proper filled

theorem text_join : (path.join ⟨name⟩).text.toList = path.text.toList ++ name.toList ∧ path.text.toList.getLast? = some '/' ∨
    (path.join ⟨name⟩).text.toList = path.text.toList ++ '/' :: name.toList := by
  have relative : (Path.mk name).isAbsolute = false := by
    cases text : name.toList with
    | nil => simp [isAbsolute, text]
    | cons c rest =>
      have other : c ≠ '/' := fun same => proper.2.1 (by simp [text, same])
      simp [isAbsolute, text, other]
  have filled : path.text ≠ "" := fun empty => filled (by simp [empty])
  simp only [join, relative, Bool.false_eq_true, if_false, String.isEmpty_iff, filled]
  split
  next slash => exact .inl ⟨by simp, slash⟩
  next => exact .inr (by simp)

/-- One more name is one more part. -/
theorem split_join : ∃ parts, path.Parts parts ∧ Text.split '/' (path.join ⟨name⟩).text.toList = parts ++ [name.toList] := by
  have last := Text.split_of_free proper.2.1
  rcases text_join proper filled with ⟨text, slash⟩ | text
  · obtain ⟨front, shape⟩ := List.getLast?_eq_some_iff.mp slash
    refine ⟨Text.split '/' front, ⟨Text.split_ne_nil _ _, .inr ?_⟩, ?_⟩
    · rw [shape, Text.split_append_separator]
      rfl
    · rw [text, shape, List.append_assoc, List.singleton_append, Text.split_append_separator, last]
  · refine ⟨_, ⟨Text.split_ne_nil _ _, .inl rfl⟩, ?_⟩
    rw [text, Text.split_append_separator, last]

theorem isAbsolute_join : (path.join ⟨name⟩).isAbsolute = path.isAbsolute := by
  obtain ⟨c, rest, shape⟩ := List.exists_cons_of_ne_nil filled
  rcases text_join proper filled with ⟨text, -⟩ | text
  · simp [isAbsolute, text, shape]
  · simp [isAbsolute, text, shape]

/-- One more name is one more component. -/
theorem components_join : (path.join ⟨name⟩).components = path.components ++ [.name name] := by
  obtain ⟨parts, ⟨some, held⟩, joined⟩ := split_join proper filled
  have same := isAbsolute_join proper filled
  have moved (parts : List (List Char)) : movingParts (parts ++ [name.toList]) = movingParts parts ++ [.name name] := by
    obtain ⟨filled, -, here, up⟩ := proper
    simp [movingParts, filled, here, Component.ofPart, up]
  have ended (parts : List (List Char)) : movingParts (parts ++ [[]]) = movingParts parts := by
    simp [movingParts]
  cases parts with
  | nil => contradiction
  | cons first more =>
    rw [List.cons_append] at joined
    by_cases here : first = ['.']
    · subst here
      rw [components_of_here joined, moved]
      rcases held with held | held
      · rw [components_of_here held, List.cons_append]
      · rw [List.cons_append] at held
        rw [components_of_here held, ended, List.cons_append]
    · rw [components_of_other joined here, same, ← List.cons_append, moved]
      rcases held with held | held
      · rw [components_of_other held here]
        split <;> simp
      · have whole : movingParts (first :: (more ++ [[]])) = movingParts (first :: more) := ended (first :: more)
        rw [List.cons_append] at held
        rw [components_of_other held here, whole]
        split <;> simp

theorem join_filled : (path.join ⟨name⟩).text.toList ≠ [] := by
  rcases text_join proper filled with ⟨text, -⟩ | text
  · rw [text]
    simp [filled]
  · simp [text]

end

section
variable {path : Path} {names : List String} (proper : ∀ name ∈ names, (Component.name name).Proper)
include proper

theorem components_down (filled : path.text.toList ≠ []) :
    (path.down names).components = path.components ++ names.map .name := by
  induction names generalizing path with
  | nil => simp [down]
  | cons name rest ih =>
    obtain ⟨first, proper⟩ := List.forall_mem_cons.mp proper
    have later := ih proper (join_filled first filled)
    rw [components_join first filled, List.append_assoc] at later
    exact later

theorem text_sublist_down (filled : path.text.toList ≠ []) : path.text.toList.Sublist (path.down names).text.toList := by
  induction names generalizing path with
  | nil => exact .refl _
  | cons name rest ih =>
    obtain ⟨first, proper⟩ := List.forall_mem_cons.mp proper
    refine List.Sublist.trans ?_ (ih proper (join_filled first filled))
    rcases text_join first filled with ⟨text, -⟩ | text
    · exact text ▸ List.sublist_append_left _ _
    · exact text ▸ List.sublist_append_left _ _

omit proper in
theorem foldl_enter_names (stack : List Component) :
    (names.map Component.name).foldl enter stack = (names.map Component.name).reverse ++ stack := by
  induction names generalizing stack with
  | nil => rfl
  | cons name rest ih =>
    rw [List.map_cons, List.foldl_cons, ih, List.reverse_cons, List.append_assoc]
    rfl

/-- Names lead on from the place of a path. -/
theorem place_down (filled : path.text.toList ≠ []) : (path.down names).place = path.place ++ names.map .name := by
  rw [place, components_down proper filled, List.foldl_append, foldl_enter_names, List.reverse_append, List.reverse_reverse,
    place]

theorem key_down_congr {other : Path} (filled : path.text.toList ≠ []) (spelled : other.text.toList ≠ [])
    (same : path.key = other.key) : (path.down names).key = (other.down names).key := by
  rw [key_eq_iff, place_down proper filled, place_down proper spelled, key_eq_iff.mp same]

theorem key_down_inj {others : List String} (filled : path.text.toList ≠ [])
    (others_proper : ∀ name ∈ others, (Component.name name).Proper) :
    (path.down names).key = (path.down others).key ↔ names = others := by
  rw [key_eq_iff, place_down proper filled, place_down others_proper filled, List.append_cancel_left_eq]
  exact List.map_inj_right fun _ _ same => Component.name.inj same

/-- What lies below a path is within it, as far as keys tell. -/
theorem isWithin_down (filled : path.text.toList ≠ []) : (Path.mk (path.down names).key).isWithin ⟨path.key⟩ = true := by
  have keyed (path : Path) : (Path.mk path.key).components = path.place := components_normalize path
  rw [isWithin, List.isPrefixOf_iff_prefix, keyed, keyed, place_down proper filled]
  exact List.prefix_append _ _

end

end FreshDocs.Path
