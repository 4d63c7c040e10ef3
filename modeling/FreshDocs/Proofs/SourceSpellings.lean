import FreshDocs.Proofs.FileTrees
import FreshDocs.Proofs.PathAnchors
import FreshDocs.Proofs.ProjectContents
import Mathlib.Data.List.Induction

/-! How the path of a source is spelled makes no difference to its figures. A path that leads to a file ends in the
name that its key ends in, since a path that turns back at its end leads to a directory. The language of a file goes
by this name, and the files that it takes in are looked for from the place of the directory it lies in. -/

namespace FreshDocs
namespace Path

variable {path first second : Path} {name : String}

theorem fileName?_eq_some : path.fileName? = some name ↔ path.components.getLast? = some (.name name) := by
  unfold fileName?
  split
  next text last => simp [last]
  next other => simpa using other name

/-- The components of a path end as its parts do. -/
private theorem getLast?_components : path.components.getLast? = some (.name name) ↔
    (movingParts (Text.split '/' path.text.toList)).getLast? = some (.name name) := by
  by_cases absolute : path.isAbsolute = true
  · obtain ⟨front, rest, shape⟩ := List.exists_cons_of_ne_nil (Text.split_ne_nil '/' path.text.toList)
    have other : front ≠ ['.'] := by
      rintro rfl
      rw [isAbsolute_of_split shape (by simp)] at absolute
      cases absolute
    rw [components_of_other shape other, if_pos absolute, shape, List.getLast?_cons]
    cases (movingParts (front :: rest)).getLast? <;> simp
  · rcases components_relative (by simpa using absolute) with shape | shape
    · rw [shape]
    · rw [shape, List.getLast?_cons]
      cases (movingParts (Text.split '/' path.text.toList)).getLast? <;> simp

private theorem fileName?_key : (Path.mk path.key).fileName? = some name ↔ path.place.getLast? = some (.name name) := by
  have same : (Path.mk path.key).components = path.place := components_normalize path
  rw [fileName?_eq_some, same]

theorem fileName?_join (proper : (Component.name name).Proper) : (path.join ⟨name⟩).fileName? = some name := by
  rw [fileName?_eq_some]
  by_cases filled : path.text.toList = []
  · have same : path.join ⟨name⟩ = ⟨name⟩ := by simp [join, String.toList_eq_nil_iff.mp filled]
    have alone : (Path.mk name).components = [.name name] := by
      have spelled : Spelled [.name name] := ⟨by simpa using proper, by simp⟩
      exact components_ofComponents spelled
    rw [same, alone]
    rfl
  · rw [components_join proper filled, List.getLast?_concat]

/-- The directory of a path that ends in a name lies where the rest of the path leads. -/
theorem place_parent (named : path.fileName? = some name) :
    ∃ parent, path.parent? = some parent ∧ parent.place = path.place.dropLast := by
  have last := fileName?_eq_some.mp named
  obtain ⟨front, shape⟩ := List.getLast?_eq_some_iff.mp last
  have spelled : Spelled front := by
    have whole := path.spelled_components
    rw [shape] at whole
    refine ⟨fun component member => whole.proper component (List.mem_append_left _ member), fun component member => ?_⟩
    refine whole.inner component ?_
    cases front with
    | nil => cases member
    | cons first rest => exact List.mem_append_left _ member
  refine ⟨ofComponents front, ?_, ?_⟩
  · simp [parent?, shape]
  · rw [place, components_ofComponents spelled, place, shape, List.foldl_append]
    simp [enter]

end Path

/-! ### Names of files -/

namespace Files
open FreshDocs.Path (Component enter movingParts)

private theorem isDirectory_of_follow {above : List (String × Node)} {node : Node} {part : List Char}
    {parts : List (List Char)} {last : List (String × Node) × Node}
    (found : follow above node (part :: parts) = .ok last) : node.isDirectory = true := by
  rw [follow.eq_def] at found
  dsimp only at found
  split at found
  · cases found
  next directory => simpa using directory

/-- A way that turns back from a name to another one ends in a directory. -/
theorem isDirectory_of_back {above : List (String × Node)} {node : Node} {stack : List Component}
    (settled : Path.Settled stack) (top : .root ∈ stack → above = []) (walked : follow above node (kept stack) = .ok (above, node))
    {parts : List (List Char)} (free : ∀ part ∈ parts, '/' ∉ part) {ending : List (String × Node) × Node}
    (found : follow above node parts = .ok ending) (back : (movingParts parts).getLast? = some .up) {name : String}
    {rest : List Component} (left : (movingParts parts).foldl enter stack = .name name :: rest) :
    ending.2.isDirectory = true := by
  induction parts using List.reverseRecOn generalizing ending with
  | nil => cases back
  | append_singleton front part ih =>
    have before : ∀ part ∈ front, '/' ∉ part := fun part member => free part (List.mem_append_left _ member)
    obtain ⟨middle, reached, one⟩ := follow_append_ok.mp found
    rw [Path.movingParts_append] at back left
    by_cases still : part = [] ∨ part = ['.']
    · have none : movingParts [part] = [] := by
        rcases still with rfl | rfl <;> simp [movingParts]
      rw [none, List.append_nil] at back left
      rw [follow_still still one]
      exact ih before reached back left
    rw [not_or] at still
    by_cases up : part = ['.', '.']
    · subst up
      have moved : movingParts [['.', '.']] = [.up] := by simp [movingParts, Component.ofPart]
      rw [moved, List.foldl_append, List.foldl_cons, List.foldl_nil] at left
      have there := follow_kept before settled top walked reached
      have passed : Path.Settled ((movingParts front).foldl enter stack) :=
        settled.foldl (fun component member => (Path.movingParts_spelled before component member).1)
          fun component member => (Path.movingParts_spelled before component member).2.1
      -- The step back can leave a name only where there was a name below it.
      cases shape : (movingParts front).foldl enter stack with
      | nil => simp [shape, enter] at left
      | cons first below =>
        rw [shape] at left there passed
        cases first with
        | root | here | up => simp [enter] at left
        | name text =>
          obtain rfl : below = .name name :: rest := left
          rw [kept_cons (by simp), follow_append_ok] at there
          obtain ⟨origin, -, step⟩ := there
          obtain ⟨filled, -, here, up⟩ := passed.1
          rw [follow_back ⟨filled, here, up⟩ step one]
          exact isDirectory_of_follow step
    · have moved : movingParts [part] = [.name (String.ofList part)] := by
        simp [movingParts, Component.ofPart, still, up]
      rw [moved, List.getLast?_concat] at back
      cases back

private theorem locate_of_read {files : Files} {path : Path} {content : ByteArray} (read : files.read path = .ok content) :
    ∃ above modified, files.locate path = .ok (above, .file content modified) := by
  simp only [Files.read] at read
  split at read
  next => cases read
  next => cases read
  next held modified found =>
    cases read
    obtain ⟨above, located⟩ := node_eq_ok.mp found
    exact ⟨above, modified, located⟩

/-- A path that leads to a file ends in the name that its key ends in. -/
theorem fileName?_key_of_read {files : Files} {path : Path} {content : ByteArray} (read : files.read path = .ok content) :
    (Path.mk path.key).fileName? = path.fileName? := by
  obtain ⟨above, modified, located⟩ := locate_of_read read
  have found := follow_of_locate located
  have free : ∀ part ∈ Text.split '/' path.text.toList, '/' ∉ part := fun _ => Text.not_mem_of_mem_split
  refine Option.ext fun name => ?_
  rw [Path.fileName?_key, Path.fileName?_eq_some, Path.getLast?_components, ← List.head?_reverse, path.place_parts]
  change (List.foldl enter (lead path) _).head? = _ ↔ _
  generalize Text.split '/' path.text.toList = parts at found free ⊢
  have spelled := Path.movingParts_spelled free
  rcases List.eq_nil_or_concat' (movingParts parts) with none | ⟨front, last, shape⟩
  · by_cases absolute : path.isAbsolute <;> simp [none, lead, absolute]
  · obtain ⟨-, rootless, moves⟩ := spelled last (by simp [shape])
    rw [shape, List.getLast?_concat, List.foldl_append, List.foldl_cons, List.foldl_nil]
    cases last with
    | root => contradiction
    | here => contradiction
    | name text => simp [enter]
    | up =>
      -- What is left at the end is a name only for a directory.
      refine iff_of_false (fun ends => ?_) (by simp)
      obtain ⟨rest, left⟩ := List.head?_eq_some_iff.mp ends
      have directory := isDirectory_of_back (settled_lead path) start_of_root_mem (follow_lead files path) free found
        (by rw [shape, List.getLast?_concat]) (by rwa [shape, List.foldl_append])
      cases directory

/-- Two paths that lead to files and have one key end in one name. -/
theorem fileName?_congr {early late : Files} {first second : Path} {content other : ByteArray} (same : first.key = second.key)
    (one : early.read first = .ok content) (two : late.read second = .ok other) : first.fileName? = second.fileName? := by
  rw [← fileName?_key_of_read one, same, fileName?_key_of_read two]

end Files

/-! ### Sources -/

namespace Source

variable {first second : Path} {name : String}

private theorem relative_of_namesFile {target : String} (names : namesFile target = true) :
    (Path.mk target).isAbsolute = false := by
  cases chars : target.toList with
  | nil => simp [Path.isAbsolute, chars]
  | cons c rest =>
    have other : c ≠ '/' := by
      rintro rfl
      simp [namesFile, chars] at names
    simp [Path.isAbsolute, chars, other]

/-- What a file takes in is looked for from where the file lies. -/
theorem dependency?_congr (same : first.key = second.key) (one : first.fileName? = some name)
    (two : second.fileName? = some name) (target : String) : dependency? first target = dependency? second target := by
  obtain ⟨directory, parent, place⟩ := Path.place_parent one
  obtain ⟨other, also, there⟩ := Path.place_parent two
  unfold dependency?
  split
  next names =>
    have relative := relative_of_namesFile names
    have resolved : (directory.join ⟨target⟩).normalize = (other.join ⟨target⟩).normalize := by
      rw [Path.normalize_eq_iff]
      apply List.reverse_injective
      rw [Path.place_join relative, Path.place_join relative, place, there, Path.key_eq_iff.mp same]
    simp only [parent, also, Option.getD_some, resolved, Path.extension?, one, two]
  next => rfl

theorem isSource_congr (same : first.fileName? = second.fileName?) : isSource first = isSource second := by
  simp only [isSource, languageOf?, Path.extension?, same]

private theorem ofStats_congr (same : first.key = second.key) (one : first.fileName? = some name)
    (two : second.fileName? = some name) (text : String) : Finding.ofStats first text = Finding.ofStats second text := by
  have figures : Stats.ofText first text = Stats.ofText second text := by
    simp only [Stats.ofText, languageOf?, Path.extension?, one, two]
  have taken : dependency? first = dependency? second := funext (dependency?_congr same one two)
  simp only [Finding.ofStats, Stats.dependencies, figures, taken]

private theorem fileName?_of_isSource (source : isSource first = true) : ∃ name, first.fileName? = some name := by
  cases named : first.fileName? with
  | some name => exact ⟨name, rfl⟩
  | none => simp [isSource, languageOf?, Path.extension?, named] at source

end Source

/-- The figures of a source are those of its content under the key of its path. -/
theorem Analyzer.stats_pure : Analyzer.stats.Pure := by
  refine ⟨?_, ?_, fun now path workspace => ⟨workspace.analyzed, rfl⟩⟩
  · intro first second content early late same one two
    exact Source.isSource_congr (Files.fileName?_congr same one two)
  · intro first second content early late now later same one two
    have ends := Files.fileName?_congr same one two
    have text : early.files.readText first = late.files.readText second := by
      simp only [Files.readText, one, two]
    simp only [stats, readStats, Source.isSource_congr ends, text]
    split
    next source =>
      obtain ⟨name, named⟩ := Source.fileName?_of_isSource source
      cases late.files.readText second with
      | error fault => simp [AnalysisError.keyed, same]
      | ok found => simp [Source.ofStats_congr same (ends.trans named) named]
    next => simp [AnalysisError.keyed, same]

end FreshDocs
