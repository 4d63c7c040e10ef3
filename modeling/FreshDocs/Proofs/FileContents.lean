import FreshDocs.Files.Stamp

/-! What is read from a tree of files. Whichever way a path takes through the tree, a content that
it leads to is that of a file in the tree, and the stamp and the text of this file follow from it. -/

namespace FreshDocs

namespace Files

def Below (held : ByteArray → Prop) (node : Node) : Prop :=
  ∀ names content modified, node.at? names = some (.file content modified) → held content

theorem Below.enter {held : ByteArray → Prop} {node next : Node} {name : String} (below : Below held node)
    (entry : node.entry? name = some next) : Below held next := by
  intro names content modified found
  exact below (name :: names) content modified (by simp [Node.at?, entry, found])

theorem below_default (held : ByteArray → Prop) : Below held default := by
  intro names content modified found
  cases names with
  | nil => cases found
  | cons name rest => cases found

/-- A walk never leaves the nodes that it can turn back to, and what is below them. -/
theorem follow_below {held : ByteArray → Prop} (parts : List (List Char)) {above : List (String × Node)}
    {node : Node} (passed : ∀ step ∈ above, Below held step.2) (start : Below held node)
    {last : List (String × Node) × Node} (found : follow above node parts = .ok last) : Below held last.2 := by
  fun_induction follow above node parts with
  | case1 =>
    cases found
    exact start
  | case2 | case6 | case7 => cases found
  | case3 _ _ _ _ _ _ ih | case4 _ _ _ _ ih => exact ih passed start found
  | case5 node rest _ name parent others _ ih =>
    refine ih (fun step member => passed step (List.mem_cons_of_mem _ member)) ?_ found
    exact passed (name, parent) List.mem_cons_self
  | case8 above node part rest _ _ _ name _ next entry ih =>
    refine ih ?_ (start.enter entry) found
    intro step member
    rcases List.mem_cons.mp member with rfl | older
    · exact start
    · exact passed step older

/-- The current directory and the directories above it lie in the tree, as far as there are any. -/
theorem here_below {held : ByteArray → Prop} {files : Files} (below : Below held files.root) :
    (∀ step ∈ files.here.1, Below held step.2) ∧ Below held files.here.2 := by
  let Kept (last : List (String × Node) × Node) := (∀ step ∈ last.1, Below held step.2) ∧ Below held last.2
  have start : Kept ([], files.root) := ⟨by simp, below⟩
  refine List.foldlRecOn files.current _ start ?_
  rintro ⟨above, node⟩ ⟨passed, here⟩ name -
  refine ⟨?_, ?_⟩
  · intro step member
    rcases List.mem_cons.mp member with rfl | older
    · exact here
    · exact passed step older
  · cases entry : Node.entry? name node with
    | none => simpa [entry] using below_default held
    | some next => simpa [entry] using here.enter entry

/-- No path leads out of the tree. -/
theorem read_below {held : ByteArray → Prop} {files : Files} (below : Below held files.root) {path : Path}
    {content : ByteArray} (read : files.read path = .ok content) : held content := by
  simp only [Files.read] at read
  split at read
  next => cases read
  next => cases read
  next found modified node =>
    cases read
    obtain ⟨last, located, ends⟩ : ∃ last, files.locate path = .ok last ∧ last.2 = .file content modified := by
      simp only [Files.node] at node
      cases located : files.locate path with
      | error fault => simp [located, Except.map] at node
      | ok last => exact ⟨last, rfl, by simpa [located, Except.map] using node⟩
    have reached : Below held last.2 := by
      obtain ⟨passed, start⟩ := here_below below
      simp only [locate] at located
      split at located
      · cases located
      split at located
      · cases located
      split at located
      · cases located
      split at located
      · exact follow_below _ (by simp) below located
      · exact follow_below _ passed start located
    exact reached [] content modified (by simp [Node.at?, ends])

end Files

/-- The stamp of a file is that of its content. -/
theorem FileStamp.read_live {files : Files} {path : Path} {stamp : FileStamp}
    (live : FileStamp.read files path = .ok (some stamp)) :
    ∃ content, files.read path = .ok content ∧ stamp.path = path ∧
      stamp.digest = Digest.ofBytes content := by
  simp only [FileStamp.read] at live
  split at live
  next => split at live <;> cases live
  next => cases live
  next content modified node =>
    cases live
    exact ⟨content, by simp [Files.read, node], rfl, rfl⟩

theorem FileStamp.read_of_read {files : Files} {path : Path} {content : ByteArray}
    (read : files.read path = .ok content) : ∃ stamp, FileStamp.read files path = .ok (some stamp) := by
  simp only [Files.read] at read
  simp only [FileStamp.read]
  cases node : files.node path with
  | error fault => simp [node] at read
  | ok found =>
    cases found with
    | directory entries => simp [node] at read
    | file content modified => exact ⟨_, rfl⟩

/-- A file without a stamp cannot be read either. -/
theorem FileStamp.read_error {files : Files} {path : Path} {error : StoreError}
    (unreadable : FileStamp.read files path = .error error) :
    ∃ fault, error = .unreadable path fault ∧ fault.isNotFound = false ∧ files.readText path = .error fault := by
  simp only [FileStamp.read] at unreadable
  split at unreadable
  next fault node =>
    split at unreadable
    next => cases unreadable
    next known =>
      cases unreadable
      exact ⟨fault, rfl, by simpa using known, by simp [Files.readText, Files.read, node]⟩
  next => cases unreadable
  next => cases unreadable

theorem Files.readText_eq_ok {files : Files} {path : Path} {source : String} :
    files.readText path = .ok source ↔
      ∃ content, files.read path = .ok content ∧ String.fromUTF8? content = some source := by
  unfold readText
  cases files.read path with
  | error fault => simp
  | ok content => cases text : String.fromUTF8? content <;> simp [text]

theorem Digest.ofText_of_fromUTF8 {content : ByteArray} {source : String}
    (text : String.fromUTF8? content = some source) : Digest.ofText source = Digest.ofBytes content := by
  unfold String.fromUTF8? at text
  split at text
  next => cases text; rfl
  next => cases text

end FreshDocs
