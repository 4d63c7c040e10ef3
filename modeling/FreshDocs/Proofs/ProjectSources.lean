import FreshDocs.Project
import FreshDocs.Proofs.FileTrees

/-! The source files below a directory. Which ones there are, and in which order they come, is told by
the names that lead to them: it depends neither on how the directory is spelled nor on the order in
which its entries are listed. -/

namespace FreshDocs

namespace Node

mutual

/-- The names that lead to the files at and below a node, without those that are passed over. -/
def sources (ignored : List String) : Node → List (List String)
  | .file .. => [[]]
  | .directory entries => sourcesIn ignored entries

def sourcesIn (ignored : List String) : List (String × Node) → List (List String)
  | [] => []
  | (name, node) :: rest =>
    (if ignored.contains name then [] else (sources ignored node).map (name :: ·)) ++ sourcesIn ignored rest

end

private theorem entry?_of_mem {entries : List (String × Node)} (distinct : (entries.map (·.1)).Nodup) {name : String} {next : Node}
    (member : (name, next) ∈ entries) : Node.entry? name (.directory entries) = some next := by
  induction entries with
  | nil => cases member
  | cons first rest ih =>
    obtain ⟨new, distinct⟩ := List.nodup_cons.mp distinct
    rcases List.mem_cons.mp member with rfl | later
    · simp [Node.entry?]
    · have other : first.1 ≠ name := by
        rintro rfl
        exact new (List.mem_map.mpr ⟨_, later, rfl⟩)
      have found := ih distinct later
      simp only [Node.entry?] at found ⊢
      rwa [List.find?_cons_of_neg (by simpa using other)]

private theorem mem_sourcesIn {ignored : List String} {entries : List (String × Node)} {names : List String} :
    names ∈ sourcesIn ignored entries ↔
      ∃ name node rest, (name, node) ∈ entries ∧ name ∉ ignored ∧ rest ∈ node.sources ignored ∧ names = name :: rest := by
  induction entries with
  | nil => simp [sourcesIn]
  | cons entry others ih =>
    obtain ⟨first, node⟩ := entry
    rw [sourcesIn, List.mem_append, ih]
    constructor
    · rintro (here | ⟨name, node, rest, member, later⟩)
      · split at here
        · cases here
        next listed =>
          obtain ⟨rest, below, rfl⟩ := List.mem_map.mp here
          exact ⟨first, node, rest, List.mem_cons_self, by simpa using listed, below, rfl⟩
      · exact ⟨name, node, rest, List.mem_cons_of_mem _ member, later⟩
    · rintro ⟨name, next, rest, member, listed, below, rfl⟩
      rcases List.mem_cons.mp member with same | later
      · cases same
        rw [if_neg (by simpa using listed)]
        exact .inl (List.mem_map.mpr ⟨rest, below, rfl⟩)
      · exact .inr ⟨name, next, rest, later, listed, below, rfl⟩

/-- The sources of a tree are its files, apart from those that are ignored. -/
theorem mem_sources {ignored : List String} {node : Node} (sound : node.Sound) {names : List String} :
    names ∈ node.sources ignored ↔
      (∃ content modified, node.at? names = some (.file content modified)) ∧ ∀ name ∈ names, name ∉ ignored := by
  induction names generalizing node with
  | nil =>
    cases node with
    | file content modified => simp [sources, at?]
    | directory entries => simp [sources, mem_sourcesIn, at?]
  | cons name rest ih =>
    cases sound with
    | file content modified => simp [sources, at?, entry?]
    | directory entries distinct named below =>
      rw [sources, mem_sourcesIn]
      constructor
      · rintro ⟨other, next, more, member, listed, later, same⟩
        obtain ⟨rfl, rfl⟩ := List.cons.inj same
        obtain ⟨found, others⟩ := (ih (below _ member)).mp later
        refine ⟨?_, List.forall_mem_cons.mpr ⟨listed, others⟩⟩
        simpa [at?, entry?_of_mem distinct member] using found
      · rintro ⟨⟨content, modified, found⟩, listed⟩
        obtain ⟨first, others⟩ := List.forall_mem_cons.mp listed
        obtain ⟨next, entry, later⟩ := Option.bind_eq_some_iff.mp found
        have member := mem_of_entry? entry
        exact ⟨name, next, rest, member, first, (ih (below _ member)).mpr ⟨⟨content, modified, later⟩, others⟩, rfl⟩

private theorem sources_nodup {ignored : List String} {node : Node} (sound : node.Sound) : (node.sources ignored).Nodup := by
  induction sound with
  | file content modified => simp [sources]
  | directory entries distinct named below ih =>
    rw [sources]
    clear named below
    induction entries with
    | nil => simp [sourcesIn]
    | cons entry others later =>
      obtain ⟨first, node⟩ := entry
      obtain ⟨new, distinct⟩ := List.nodup_cons.mp distinct
      obtain ⟨here, ih⟩ := List.forall_mem_cons.mp ih
      rw [sourcesIn, List.nodup_append]
      refine ⟨?_, later distinct ih, ?_⟩
      · split
        · exact List.nodup_nil
        · exact List.pairwise_map.mpr (here.imp fun different same => different (List.cons.inj same).2)
      · rintro names member others below rfl
        obtain ⟨name, next, rest, listed, -, -, rfl⟩ := mem_sourcesIn.mp below
        split at member
        · cases member
        · obtain ⟨more, -, same⟩ := List.mem_map.mp member
          exact new (List.mem_map.mpr ⟨_, listed, (List.cons.inj same).1.symm⟩)

end Node

namespace Project

mutual

private theorem walk_eq (ignored : List String) (path : Path) (node : Node) :
    walk ignored path node = (node.sources ignored).map path.down := by
  cases node with
  | file content modified => simp [walk, Node.sources, Path.down]
  | directory entries => rw [walk, Node.sources, walkEntries_eq]

private theorem walkEntries_eq (ignored : List String) (path : Path) (entries : List (String × Node)) :
    walkEntries ignored path entries = (Node.sourcesIn ignored entries).map path.down := by
  match entries with
  | [] => simp [walkEntries, Node.sourcesIn]
  | (name, node) :: rest =>
    rw [walkEntries, Node.sourcesIn, List.map_append, walkEntries_eq]
    congr 1
    split
    · rfl
    · rw [walk_eq, List.map_map]
      rfl

end

def before (names others : List String) : Bool :=
  (Path.compareComponents (names.map .name) (others.map .name)).isLE

private theorem compareComponents_names (names others : List String) :
    Path.compareComponents (names.map .name) (others.map .name) = List.compareLex compare names others := by
  induction names generalizing others with
  | nil => cases others <;> rfl
  | cons name rest ih =>
    cases others with
    | nil => rfl
    | cons other more =>
      have ranked : compare (Path.Component.name name) (Path.Component.name other) = compare name other := rfl
      rw [List.map_cons, List.map_cons, Path.compareComponents, ih, ranked, List.compareLex]
      cases compare name other <;> rfl

theorem before_eq (names others : List String) : before names others = (List.compareLex compare names others).isLE := by
  rw [before, compareComponents_names]

private theorem compareComponents_append (front back more : List Path.Component) :
    Path.compareComponents (front ++ back) (front ++ more) = Path.compareComponents back more := by
  induction front with
  | nil => rfl
  | cons first rest ih =>
    have same : compare first first = .eq := by
      change (compare first.rank.1 first.rank.1).then (compare first.rank.2 first.rank.2) = .eq
      rw [Std.compare_self, Std.compare_self]
      rfl
    rw [List.cons_append, List.cons_append, Path.compareComponents, same, ih]
    rfl

private theorem compare_path_self (path : Path) : compare path path = .eq := by
  have same := compareComponents_append path.components [] []
  rwa [List.append_nil] at same

/-- Below one directory the names decide on the order. -/
theorem compare_down_names {directory : Path} (filled : directory.text.toList ≠ []) {names others : List String}
    (proper : ∀ name ∈ names, (Path.Component.name name).Proper) (spelled : ∀ name ∈ others, (Path.Component.name name).Proper) :
    compare (directory.down names) (directory.down others) = List.compareLex compare names others := by
  change Path.compareComponents _ _ = _
  rw [Path.components_down proper filled, Path.components_down spelled filled, compareComponents_append,
    compareComponents_names]

private theorem compare_down {directory : Path} (filled : directory.text.toList ≠ []) {names others : List String}
    (proper : ∀ name ∈ names, (Path.Component.name name).Proper) (spelled : ∀ name ∈ others, (Path.Component.name name).Proper) :
    (compare (directory.down names) (directory.down others)).isLE = before names others := by
  rw [compare_down_names filled proper spelled, before_eq]

/-- The names that lead to the source files below a directory, in order. -/
def listed (project : Project) (directory : Path) (node : Node) : List (List String) :=
  ((node.sources project.ignored).filter fun names => project.analyzer.supports (directory.down names)).mergeSort before

section
variable {project : Project} {files : Files} {directory : Path} {node : Node}

theorem mem_listed (sound : node.Sound) {names : List String} : names ∈ project.listed directory node ↔
    (∃ content modified, node.at? names = some (.file content modified)) ∧ (∀ name ∈ names, name ∉ project.ignored) ∧
      project.analyzer.supports (directory.down names) = true := by
  rw [listed, List.mem_mergeSort, List.mem_filter, Node.mem_sources sound, and_assoc]

theorem proper_of_listed (sound : node.Sound) {names : List String} (member : names ∈ project.listed directory node) :
    ∀ name ∈ names, (Path.Component.name name).Proper := by
  obtain ⟨⟨content, modified, found⟩, -⟩ := (mem_listed sound).mp member
  exact fun name listed => ((sound.at? found).1 name listed).proper

theorem sourceFiles_eq (sound : node.Sound) (here : files.node directory = .ok node) :
    project.sourceFiles files directory = .ok ((project.listed directory node).map directory.down) := by
  have filled := Files.filled_of_node here
  simp only [sourceFiles, here, walk_eq]
  rw [List.filter_map, listed, @List.map_mergeSort _ _ before (fun a b => (compare a b).isLE)]
  · rfl
  · intro names member others also
    have proper {names : List String} (member : names ∈ (node.sources project.ignored).filter fun names =>
        project.analyzer.supports (directory.down names)) : ∀ name ∈ names, (Path.Component.name name).Proper := by
      obtain ⟨⟨content, modified, found⟩, -⟩ := (Node.mem_sources sound).mp (List.mem_filter.mp member).1
      exact fun name listed => ((sound.at? found).1 name listed).proper
    exact (compare_down filled (proper member) (proper also)).symm

private theorem nodup_listed (sound : node.Sound) : (project.listed directory node).Nodup :=
  (List.mergeSort_perm _ _).nodup_iff.mpr ((Node.sources_nodup sound).filter _)

private theorem sorted_listed (project : Project) (directory : Path) (node : Node) :
    (project.listed directory node).Pairwise fun names others => before names others = true := by
  refine List.pairwise_mergeSort ?_ ?_ _
  · intro first second third
    simp only [before_eq]
    exact Std.TransCmp.isLE_trans
  · intro first second
    have swap := @Std.OrientedCmp.eq_swap _ (List.compareLex compare) _ second first
    rw [before_eq, before_eq, swap]
    cases List.compareLex compare first second <;> rfl

/-- Where there are the same source files, they come in the same order. -/
theorem listed_congr {other : Path} {next : Node} (sound : node.Sound) (later : next.Sound)
    (same : ∀ names, names ∈ project.listed directory node ↔ names ∈ project.listed other next) :
    project.listed directory node = project.listed other next := by
  have alike := (List.perm_ext_iff_of_nodup (nodup_listed sound) (nodup_listed later)).mpr same
  refine List.Perm.eq_of_pairwise ?_ (sorted_listed _ _ _) (sorted_listed _ _ _) alike
  intro names others _ _ one two
  rw [before_eq] at one two
  exact Std.LawfulEqCmp.eq_of_compare (Std.OrientedCmp.isLE_antisymm one two)

/-- A path is that of a supported file at or below a directory, and none of the names that lead there from the
directory is ignored. -/
structure Gathers (project : Project) (directory : Path) (node : Node) (path : Path) (names : List String) : Prop where
  spelled : path = directory.down names
  below : path.components = directory.components ++ names.map .name
  file : ∃ content modified, node.at? names = some (.file content modified)
  unignored : ∀ name ∈ names, name ∉ project.ignored
  supported : project.analyzer.supports path = true

private theorem gathers_iff (sound : node.Sound) (filled : directory.text.toList ≠ []) {path : Path} {names : List String} :
    project.Gathers directory node path names ↔ names ∈ project.listed directory node ∧ path = directory.down names := by
  constructor
  · rintro ⟨rfl, -, file, unignored, supported⟩
    exact ⟨(mem_listed sound).mpr ⟨file, unignored, supported⟩, rfl⟩
  · rintro ⟨listed, rfl⟩
    obtain ⟨file, unignored, supported⟩ := (mem_listed sound).mp listed
    exact ⟨rfl, Path.components_down (proper_of_listed sound listed) filled, file, unignored, supported⟩

/-- The source files of an existing directory are exactly the supported files at and below it to which no ignored
name leads. Each of them comes once, and they ascend component by component. How the directory itself is called
makes no difference. -/
theorem sourceFiles_exact (project : Project) {files : Files} (sound : files.Sound) {directory : Path} {node : Node}
    (here : files.node directory = .ok node) :
    ∃ paths, project.sourceFiles files directory = .ok paths ∧
      (∀ path, path ∈ paths ↔ ∃ names, project.Gathers directory node path names) ∧
      paths.Nodup ∧ paths.Pairwise fun first second => compare first second = .lt := by
  have whole := sound.node here
  have filled := Files.filled_of_node here
  have ascending : ((project.listed directory node).map directory.down).Pairwise
      fun first second => compare first second = .lt := by
    refine List.pairwise_map.mpr (((sorted_listed project directory node).and (nodup_listed whole)).imp_of_mem ?_)
    rintro names others listed also ⟨before, different⟩
    rw [compare_down_names filled (proper_of_listed whole listed) (proper_of_listed whole also)]
    rw [before_eq] at before
    cases order : List.compareLex compare names others with
    | lt => rfl
    | eq => exact (different (Std.LawfulEqCmp.eq_of_compare order)).elim
    | gt =>
      rw [order] at before
      cases before
  refine ⟨_, sourceFiles_eq whole here, fun path => ?_, ascending.imp ?_, ascending⟩
  · simp only [gathers_iff whole filled, List.mem_map]
    exact exists_congr fun names => and_congr_right fun _ => eq_comm
  · rintro first second before rfl
    rw [compare_path_self] at before
    cases before

end

instance (name : String) : Decidable (Path.Component.name name).Proper :=
  inferInstanceAs (Decidable (_ ∧ _ ∧ _ ∧ _))

instance (name : String) : Decidable (Files.Name name) :=
  decidable_of_iff ((Path.Component.name name).Proper ∧ '\x00' ∉ name.toList ∧ name.utf8ByteSize ≤ Files.nameLimit)
    ⟨fun ⟨proper, free, short⟩ => ⟨proper, free, short⟩, fun named => ⟨named.proper, named.free, named.short⟩⟩

/-- A directory and, in it, a file and another directory, which are all called the same. -/
def namesakes : Node :=
  let leaf : Node := .file .empty .epoch
  .directory [("gen.rs", leaf), ("lib", .directory [("gen.rs", .directory [("a.rs", leaf)]), ("deep.rs", leaf)]),
    ("main.rs", leaf), ("notes.txt", leaf)]

/-- That name is ignored, which says nothing about the directory that is asked for. -/
theorem namesakes_exact :
    let project : Project := { root := ⟨"/"⟩, ignored := ["gen.rs"] }
    let files : Files := { root := .directory [("gen.rs", namesakes)], current := [] }
    files.Sound ∧ files.node ⟨"/gen.rs"⟩ = .ok namesakes ∧
      ∃ paths, project.sourceFiles files ⟨"/gen.rs"⟩ = .ok paths ∧
        (∀ path, path ∈ paths ↔ ∃ names, project.Gathers ⟨"/gen.rs"⟩ namesakes path names) ∧
        paths.Nodup ∧ paths.Pairwise fun first second => compare first second = .lt := by
  intro project files
  have leaf : (Node.file .empty .epoch).Sound := .file _ _
  have inner : (Node.directory [("a.rs", .file .empty .epoch)]).Sound :=
    .directory _ (by decide) (by decide) (by simpa using leaf)
  have lib : (Node.directory [("gen.rs", .directory [("a.rs", .file .empty .epoch)]), ("deep.rs", .file .empty .epoch)]).Sound :=
    .directory _ (by decide) (by decide) (by simpa using ⟨inner, leaf⟩)
  have whole : namesakes.Sound := .directory _ (by decide) (by decide) (by simpa using ⟨leaf, lib, leaf⟩)
  have sound : files.Sound := ⟨.directory _ (by decide) (by decide) (by simpa using whole), _, rfl⟩
  have here : files.node ⟨"/gen.rs"⟩ = .ok namesakes := rfl
  exact ⟨sound, here, sourceFiles_exact project sound here⟩

end Project
end FreshDocs
