import FreshDocs.Proofs.ProjectAnswers
import FreshDocs.Proofs.ProjectSources
import FreshDocs.Proofs.SourceSpellings

/-! The aggregate of a directory, told without any stores. It is made from the source files that are
there, and from nothing else: where there are the same files of the same contents, it is the same,
however the directory is spelled and whenever the files were written. -/

namespace FreshDocs

/-- An analysis without the spelling of its path and without the time of the last change. -/
def Analysis.timeless (analysis : Analysis) : Analysis :=
  { analysis.keyed with stamp := { analysis.keyed.stamp with modified := .epoch } }

/-- A snapshot without the spelling of its directory and without the time at which it was made. -/
def Snapshot.keyed (snapshot : Snapshot) : Snapshot :=
  { snapshot with
    project := ⟨snapshot.project.key⟩
    updatedAt := .epoch }

/-- An aggregate depends on the key of the directory and on what was found in the files. Whether a file below a
directory is supported is told by its key, even where its path is too long for it to be read, and a file that
can be read is not found missing. -/
structure Analyzer.Aggregates (analyzer : Analyzer) : Prop where
  aggregate : ∀ {first second : Path} {analyses others : List Analysis}, first.key = second.key →
    analyses.map Analysis.timeless = others.map Analysis.timeless →
      analyzer.aggregate first analyses = analyzer.aggregate second others
  supports : ∀ {first second : Path} {name : String}, (Path.Component.name name).Proper →
    (first.join ⟨name⟩).key = (second.join ⟨name⟩).key →
      analyzer.supports (first.join ⟨name⟩) = analyzer.supports (second.join ⟨name⟩)
  finds : ∀ {now : Timestamp} {path : Path} {workspace : Workspace} {content : ByteArray} {error : AnalysisError},
    workspace.files.read path = .ok content → (analyzer.analyze now path workspace).1 = .error error →
      error.isNotFound = false

theorem Analyzer.stats_aggregates : Analyzer.stats.Aggregates := by
  refine ⟨?_, ?_, ?_⟩
  · intro first second analyses others key same
    have results : analyses.map (·.result) = others.map (·.result) := by
      have kept := congrArg (List.map (·.result)) same
      rw [List.map_map, List.map_map] at kept
      exact kept
    simp only [stats, Source.Totals.aggregate, key, results]
  · intro first second name proper _
    exact Source.isSource_congr ((Path.fileName?_join proper).trans (Path.fileName?_join proper).symm)
  · intro now path workspace content error read failed
    simp only [stats, readStats, Files.readText, read] at failed
    split at failed
    · cases text : String.fromUTF8? content with
      | none =>
        rw [text] at failed
        cases failed
        rfl
      | some found =>
        rw [text] at failed
        cases failed
    · cases failed
      rfl

theorem FileStamp.fits {files : Files} {path : Path} {found : Option FileStamp}
    (live : FileStamp.read files path = .ok found) : path.text.utf8ByteSize ≤ Files.pathLimit := by
  refine Nat.le_of_not_lt fun long => ?_
  have filled : path.text.isEmpty = false := by
    cases empty : path.text.isEmpty with
    | false => rfl
    | true =>
      rw [String.isEmpty_iff.mp empty] at long
      simp at long
  simp only [FileStamp.read, Files.node, Files.locate, filled, Bool.false_eq_true, if_false, if_pos long] at live
  split at live
  next fault failed =>
    have known : fault.isNotFound = false := by
      split at failed
      · cases failed
        rfl
      · cases failed
        rfl
    simp [known] at live
  next failed => split at failed <;> cases failed
  next failed => split at failed <;> cases failed

namespace Project

def aggregated (project : Project) (directory : Path) (analyses : List Analysis) : Snapshot :=
  { project := directory
    aggregate := project.analyzer.aggregate directory analyses
    manifest := manifest analyses
    updatedAt := .epoch }

def snapshotOf (project : Project) (files : Files) (directory : Path) : Except Error Snapshot :=
  match project.sourceFiles files directory with
  | .error error => .error error
  | .ok paths => (project.analysesOf files paths).map (project.aggregated directory)

/-! ### Manifests -/

theorem manifest_timeless (analyses : List Analysis) : manifest (analyses.map Analysis.timeless) = manifest analyses := by
  simp [manifest, List.foldl_map, Analysis.timeless, Analysis.keyed, Path.key_key]

private theorem mem_manifest {analyses : List Analysis} {key : String} :
    key ∈ manifest analyses ↔ ∃ analysis ∈ analyses, analysis.path.key = key := by
  have folded (before : Manifest) : key ∈ analyses.foldl (fun manifest analysis =>
      manifest.insert analysis.path.key analysis.stamp.digest) before ↔
        key ∈ before ∨ ∃ analysis ∈ analyses, analysis.path.key = key := by
    induction analyses generalizing before with
    | nil => simp
    | cons first rest ih => simp [ih, Std.ExtTreeMap.mem_insert, or_assoc, or_left_comm]
  exact (folded ∅).trans (by simp)

private theorem listed_in_manifest {analyses : List Analysis} {key : String} {digest : Digest}
    (listed : (manifest analyses)[key]? = some digest) :
    ∃ analysis ∈ analyses, analysis.path.key = key ∧ analysis.stamp.digest = digest := by
  have folded {before : Manifest} (found : (analyses.foldl (fun manifest analysis =>
      manifest.insert analysis.path.key analysis.stamp.digest) before)[key]? = some digest) :
        before[key]? = some digest ∨ ∃ analysis ∈ analyses, analysis.path.key = key ∧ analysis.stamp.digest = digest := by
    clear listed
    induction analyses generalizing before with
    | nil => exact .inl found
    | cons first rest ih =>
      rcases ih found with here | ⟨analysis, member, found⟩
      · rw [Std.ExtTreeMap.getElem?_insert] at here
        split at here
        next same => exact .inr ⟨first, List.mem_cons_self, Std.compare_eq_iff_eq.mp same, Option.some.inj here⟩
        next => exact .inl here
      · exact .inr ⟨analysis, List.mem_cons_of_mem _ member, found⟩
  rcases folded listed with empty | found
  · simp at empty
  · exact found

/-! ### Analyses of readable files -/

section
variable {project : Project} {files others : Files} {path other : Path} {content : ByteArray}

private theorem analysisOf_of_read (aggregates : project.analyzer.Aggregates) (supported : project.analyzer.supports path = true)
    (read : files.read path = .ok content) : ∃ modified, project.analysisOf files path =
      ((project.analyzer.analyze .epoch path (.ofFiles files {} {})).1.mapError .analysis).map fun finding =>
        some (.ofStamp { path, digest := .ofBytes content, size := content.size, modified }
          finding.result finding.dependencies) := by
  simp only [Files.read] at read
  split at read
  next => cases read
  next => cases read
  next held modified node =>
    cases read
    have bare : (Workspace.ofFiles files {} {}).files.read path = .ok content := by
      simp [Workspace.ofFiles, Files.read, node]
    refine ⟨modified, ?_⟩
    simp only [analysisOf, FileStamp.read, node, supported, if_true]
    cases result : (project.analyzer.analyze .epoch path (.ofFiles files {} {})).1 with
    | error error =>
      simp only [aggregates.finds bare result]
      rfl
    | ok finding => rfl

private theorem analysisOf_congr (pure : project.analyzer.Pure) (aggregates : project.analyzer.Aggregates)
    (same : path.key = other.key) (supported : project.analyzer.supports path = true)
    (read : files.read path = .ok content) (also : others.read other = .ok content) :
    Alike (Option.map Analysis.timeless) (project.analysisOf files path) (project.analysisOf others other) := by
  obtain ⟨modified, first⟩ := analysisOf_of_read aggregates supported read
  obtain ⟨later, second⟩ := analysisOf_of_read aggregates ((pure.supports same read also).symm.trans supported) also
  have bare : (Workspace.ofFiles files {} {}).files.read path = .ok content := read
  have equal := pure.analyze .epoch .epoch same bare (show (Workspace.ofFiles others {} {}).files.read other = .ok content from also)
  rw [first, second]
  generalize (project.analyzer.analyze .epoch path (.ofFiles files {} {})).1 = one at equal ⊢
  generalize (project.analyzer.analyze .epoch other (.ofFiles others {} {})).1 = two at equal ⊢
  cases one with
  | error error =>
    cases two with
    | error fault => simpa [Alike, Except.map, Error.keyed] using equal
    | ok finding => cases equal
  | ok finding =>
    cases two with
    | error fault => cases equal
    | ok found =>
      obtain rfl : finding = found := by simpa using equal
      simp [Alike, Except.map, Analysis.timeless, Analysis.keyed, Analysis.ofStamp, same]

private theorem analysesOf_congr {ι : Type} {places : List ι} {first second : ι → Path}
    (alike : ∀ place ∈ places, Alike (Option.map Analysis.timeless) (project.analysisOf files (first place))
      (project.analysisOf others (second place))) :
    Alike (List.map Analysis.timeless) (project.analysesOf files (places.map first))
      (project.analysesOf others (places.map second)) := by
  induction places with
  | nil => rfl
  | cons place rest ih =>
    obtain ⟨here, later⟩ := List.forall_mem_cons.mp alike
    rw [List.map_cons, List.map_cons, analysesOf_cons, analysesOf_cons]
    exact here.cons (ih later)

/-- Analyses of readable files are all there, each with the digest of its file. -/
theorem analysesOf_ok (aggregates : project.analyzer.Aggregates) {paths : List Path} {analyses : List Analysis}
    (made : project.analysesOf files paths = .ok analyses)
    (readable : ∀ path ∈ paths, project.analyzer.supports path = true ∧ ∃ content, files.read path = .ok content) :
    analyses.map (·.path) = paths ∧ ∀ analysis ∈ analyses, ∃ content,
      files.read analysis.path = .ok content ∧ analysis.stamp.digest = Digest.ofBytes content := by
  induction paths generalizing analyses with
  | nil =>
    cases made
    exact ⟨rfl, by simp⟩
  | cons path rest ih =>
    obtain ⟨⟨supported, content, read⟩, readable⟩ := List.forall_mem_cons.mp readable
    obtain ⟨modified, first⟩ := analysisOf_of_read aggregates supported read
    rw [analysesOf_cons, first] at made
    cases result : (project.analyzer.analyze .epoch path (.ofFiles files {} {})).1 with
    | error error =>
      rw [result] at made
      cases made
    | ok finding =>
      rw [result] at made
      cases others : project.analysesOf files rest with
      | error error =>
        rw [others] at made
        cases made
      | ok more =>
        rw [others] at made
        cases made
        obtain ⟨paths, digests⟩ := ih others readable
        exact ⟨congrArg (path :: ·) paths, List.forall_mem_cons.mpr ⟨⟨content, read, rfl⟩, digests⟩⟩

private theorem stamp_of_analysesOf {paths : List Path} {analyses : List Analysis} (made : project.analysesOf files paths = .ok analyses)
    (member : path ∈ paths) : ∃ found, FileStamp.read files path = .ok found := by
  induction paths generalizing analyses with
  | nil => cases member
  | cons first rest ih =>
    rw [analysesOf_cons] at made
    cases result : project.analysisOf files first with
    | error error =>
      rw [result] at made
      cases made
    | ok found =>
      rw [result] at made
      rcases List.mem_cons.mp member with rfl | later
      · simp only [analysisOf] at result
        split at result
        · cases result
        · exact ⟨_, ‹_›⟩
        · exact ⟨_, ‹_›⟩
      · cases others : project.analysesOf files rest with
        | error error =>
          rw [others] at made
          cases made
        | ok more => exact ih others later

end

/-! ### Aggregates -/

section
variable {project : Project} {files : Files} {directory : Path} {node : Node} (sound : files.Sound)
  (here : files.node directory = .ok node)
include sound here

theorem snapshotOf_eq : project.snapshotOf files directory =
    (project.analysesOf files ((project.listed directory node).map directory.down)).map (project.aggregated directory) := by
  simp only [snapshotOf, sourceFiles_eq (sound.node here) here]

private theorem supports_listed {names : List String} (member : names ∈ project.listed directory node) :
    project.analyzer.supports (directory.down names) = true :=
  ((mem_listed (sound.node here)).mp member).2.2

/-- The files that an aggregate was made from could be read. -/
theorem read_listed {made : Snapshot} (known : project.snapshotOf files directory = .ok made) {names : List String}
    (member : names ∈ project.listed directory node) : ∃ content, files.read (directory.down names) = .ok content := by
  rw [snapshotOf_eq sound here] at known
  cases analyzed : project.analysesOf files ((project.listed directory node).map directory.down) with
  | error error =>
    rw [analyzed] at known
    cases known
  | ok analyses =>
    obtain ⟨stamp, live⟩ := stamp_of_analysesOf analyzed (List.mem_map.mpr ⟨names, member, rfl⟩)
    obtain ⟨⟨content, modified, found⟩, -⟩ := (mem_listed (sound.node here)).mp member
    exact ⟨content, sound.read_down here found (FileStamp.fits live)⟩

/-- The manifest of a snapshot lists the source files with the digests of their contents. -/
theorem manifest_of_snapshotOf (aggregates : project.analyzer.Aggregates) {made : Snapshot}
    (known : project.snapshotOf files directory = .ok made) {key : String} {digest : Digest} :
    made.manifest[key]? = some digest ↔ ∃ names ∈ project.listed directory node, ∃ content,
      files.read (directory.down names) = .ok content ∧ key = (directory.down names).key ∧ digest = Digest.ofBytes content := by
  have readable : ∀ path ∈ (project.listed directory node).map directory.down,
      project.analyzer.supports path = true ∧ ∃ content, files.read path = .ok content := by
    intro path member
    obtain ⟨names, listed, rfl⟩ := List.mem_map.mp member
    exact ⟨supports_listed sound here listed, read_listed sound here known listed⟩
  have named {names : List String} (member : names ∈ project.listed directory node) :=
    proper_of_listed (sound.node here) member
  have filled := Files.filled_of_node here
  rw [snapshotOf_eq sound here] at known
  cases analyzed : project.analysesOf files ((project.listed directory node).map directory.down) with
  | error error =>
    rw [analyzed] at known
    cases known
  | ok analyses =>
    rw [analyzed] at known
    cases known
    obtain ⟨paths, digests⟩ := analysesOf_ok aggregates analyzed readable
    have listed {key : String} {digest : Digest} (held : (Project.manifest analyses)[key]? = some digest) :
        ∃ names ∈ project.listed directory node, ∃ content, files.read (directory.down names) = .ok content ∧
          key = (directory.down names).key ∧ digest = Digest.ofBytes content := by
      obtain ⟨analysis, member, rfl, rfl⟩ := listed_in_manifest held
      have placed : analysis.path ∈ analyses.map (·.path) := List.mem_map.mpr ⟨analysis, member, rfl⟩
      rw [paths] at placed
      obtain ⟨names, listed, same⟩ := List.mem_map.mp placed
      obtain ⟨content, read, stamped⟩ := digests analysis member
      exact ⟨names, listed, content, by rw [same]; exact read, by rw [same], stamped⟩
    refine ⟨listed, ?_⟩
    rintro ⟨names, member, content, read, rfl, rfl⟩
    have placed : directory.down names ∈ analyses.map (·.path) := by
      rw [paths]
      exact List.mem_map.mpr ⟨names, member, rfl⟩
    obtain ⟨analysis, present, same⟩ := List.mem_map.mp placed
    have held : (directory.down names).key ∈ Project.manifest analyses := mem_manifest.mpr ⟨analysis, present, by rw [same]⟩
    obtain ⟨digest, entry⟩ := Option.isSome_iff_exists.mp (Std.ExtTreeMap.isSome_getElem?_iff_mem.mpr held)
    obtain ⟨others, also, found, reads, keyed, rfl⟩ := listed entry
    obtain rfl : names = others := (Path.key_down_inj (named member) filled (named also)).mp keyed
    rw [← Except.ok.inj (reads.symm.trans read)]
    exact entry

/-- Where the same source files of the same contents are there, the snapshot is the same. -/
theorem snapshotOf_congr (pure : project.analyzer.Pure) (aggregates : project.analyzer.Aggregates) {others : Files} {other : Path}
    {next : Node} (later : others.Sound) (there : others.node other = .ok next) (spelled : directory.key = other.key)
    (same : project.listed directory node = project.listed other next)
    (unchanged : ∀ names ∈ project.listed directory node, ∃ content,
      files.read (directory.down names) = .ok content ∧ others.read (other.down names) = .ok content) :
    Alike Snapshot.keyed (project.snapshotOf files directory) (project.snapshotOf others other) := by
  have alike : Alike (List.map Analysis.timeless)
      (project.analysesOf files ((project.listed directory node).map directory.down))
      (project.analysesOf others ((project.listed directory node).map other.down)) := by
    refine analysesOf_congr fun names member => ?_
    obtain ⟨content, read, also⟩ := unchanged names member
    have named := proper_of_listed (sound.node here) member
    have keyed := Path.key_down_congr named (Files.filled_of_node here) (Files.filled_of_node there) spelled
    exact analysisOf_congr pure aggregates keyed (supports_listed sound here member) read also
  rw [snapshotOf_eq sound here, snapshotOf_eq later there, ← same]
  cases first : project.analysesOf files ((project.listed directory node).map directory.down) with
  | error error =>
    rw [first] at alike
    obtain ⟨fault, shape, keyed⟩ := alike.error
    rw [shape]
    exact congrArg Except.error keyed
  | ok analyses =>
    rw [first] at alike
    obtain ⟨more, shape, equal⟩ := alike.ok
    rw [shape]
    have manifests : manifest analyses = manifest more := by
      rw [← manifest_timeless, equal, manifest_timeless]
    simp [Alike, Except.map, aggregated, Snapshot.keyed, aggregates.aggregate spelled equal, manifests, spelled]

end

end Project
end FreshDocs
