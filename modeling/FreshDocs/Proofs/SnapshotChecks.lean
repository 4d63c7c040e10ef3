import FreshDocs.Proofs.SnapshotAnswers

/-! What the check of a manifest tells about the files there are now. A snapshot that passes it is the
one that would be made now, unless there are source files that it does not list. Where the check
cannot be made, something has come to stand where a directory was. -/

namespace FreshDocs

/-- Nothing lies below a file. -/
theorem Node.eq_of_file_prefix {node next : Node} {front names : List String} {content : ByteArray} {modified : Timestamp}
    (file : node.at? front = some (.file content modified)) (found : node.at? names = some next) (within : front <+: names) :
    front = names := by
  obtain ⟨rest, rfl⟩ := within
  rw [at?_append, file] at found
  cases rest with
  | nil => simp
  | cons name more => cases found

/-- The paths of all files below a directory are short enough to read them by. -/
def Node.InReach (node : Node) (directory : Path) : Prop :=
  ∀ names content modified, node.at? names = some (.file content modified) →
    (directory.down names).text.utf8ByteSize ≤ Files.pathLimit

namespace Project

section
variable {project : Project} {files others : Files} {directory : Path} {node : Node}

theorem node_of_snapshotOf {made : Snapshot} (known : project.snapshotOf files directory = .ok made) :
    ∃ node, files.node directory = .ok node := by
  simp only [snapshotOf, sourceFiles] at known
  cases found : files.node directory with
  | error fault =>
    rw [found] at known
    cases known
  | ok node => exact ⟨node, rfl⟩

/-- The names lead from a directory to a supported file that is not passed over. -/
structure IsSource (project : Project) (files : Files) (directory : Path) (names : List String) (content : ByteArray) : Prop where
  proper : ∀ name ∈ names, (Path.Component.name name).Proper
  kept : ∀ name ∈ names, name ∉ project.ignored
  supported : project.analyzer.supports (directory.down names) = true
  read : files.read (directory.down names) = .ok content

theorem isSource_iff (sound : files.Sound) (here : files.node directory = .ok node) {names : List String} {content : ByteArray} :
    project.IsSource files directory names content ↔
      names ∈ project.listed directory node ∧ files.read (directory.down names) = .ok content := by
  rw [mem_listed (sound.node here)]
  constructor
  · rintro ⟨proper, kept, supported, read⟩
    obtain ⟨modified, found⟩ := sound.at?_of_read here read (Path.place_down proper (Files.filled_of_node here))
    exact ⟨⟨⟨content, modified, found⟩, kept, supported⟩, read⟩
  · rintro ⟨listed, read⟩
    exact ⟨proper_of_listed (sound.node here) ((mem_listed (sound.node here)).mpr listed), listed.2.1, listed.2.2, read⟩

private theorem read_of_node {content : ByteArray} {modified : Timestamp} (here : files.node directory = .ok node)
    (found : node.at? [] = some (.file content modified)) : files.read directory = .ok content := by
  cases found
  simp only [Files.read, here]

/-- However a directory is spelled, the same files below it are supported, and so is the directory itself if it
is no directory but a file. -/
theorem supports_down_congr (pure : project.analyzer.Pure) (aggregates : project.analyzer.Aggregates) (early late : Files)
    {first second : Path} (same : first.key = second.key) (filled : first.text.toList ≠ []) (spelled : second.text.toList ≠ [])
    {names : List String} (proper : ∀ name ∈ names, (Path.Component.name name).Proper) {content : ByteArray}
    (one : names = [] → early.read first = .ok content) (two : names = [] → late.read second = .ok content) :
    project.analyzer.supports (first.down names) = project.analyzer.supports (second.down names) := by
  have keyed := Path.key_down_congr proper filled spelled same
  rcases List.eq_nil_or_concat' names with rfl | ⟨front, last, rfl⟩
  · exact pure.supports same (one rfl) (two rfl)
  · have joined (path : Path) : path.down (front ++ [last]) = (path.down front).join ⟨last⟩ := by
      simp [Path.down, List.foldl_append]
    rw [joined, joined] at keyed ⊢
    exact aggregates.supports (proper last (by simp)) keyed

end

/-- Each file that could not be read before is listed, or a directory on the way to it is. -/
def Accounted (project : Project) (before : Files) (directory : Path) (snapshot : Snapshot) (old node : Node) : Prop :=
  ∀ names content modified, node.at? names = some (.file content modified) →
    (before.read (directory.down names)).isOk = false →
      ∃ front, front <+: names ∧ front ∈ project.listed snapshot.project old

/-! ### Checked snapshots -/

section
variable {project : Project} {before files : Files} {directory : Path} {snapshot : Snapshot} {old node : Node}
  {seen : ByteArray → Prop} (pure : project.analyzer.Pure) (aggregates : project.analyzer.Aggregates)
  (earlier : before.Sound) (made : project.Made before directory.key snapshot)
  (there : before.node snapshot.project = .ok old) (sound : files.Sound) (here : files.node directory = .ok node)
include aggregates earlier made there

omit aggregates earlier in
private theorem place_of_made {names : List String} (proper : ∀ name ∈ names, (Path.Component.name name).Proper) :
    (snapshot.project.down names).place = directory.place ++ names.map .name := by
  rw [Path.place_down proper (Files.filled_of_node there), Path.key_eq_iff.mp made.named]

omit aggregates earlier there in
private theorem place_for_made {names : List String} (proper : ∀ name ∈ names, (Path.Component.name name).Proper)
    (filled : directory.text.toList ≠ []) : (directory.down names).place = snapshot.project.place ++ names.map .name := by
  rw [Path.place_down proper filled, Path.key_eq_iff.mp made.named]

theorem listed_of_key {names : List String} (proper : ∀ name ∈ names, (Path.Component.name name).Proper)
    (filled : directory.text.toList ≠ []) (member : (directory.down names).key ∈ snapshot.manifest) :
    names ∈ project.listed snapshot.project old := by
  obtain ⟨digest, entry⟩ := Option.isSome_iff_exists.mp (Std.ExtTreeMap.isSome_getElem?_iff_mem.mpr member)
  obtain ⟨found, listed, content, -, keyed, -⟩ := (manifest_of_snapshotOf earlier there aggregates made.shape).mp entry
  have named := proper_of_listed (earlier.node there) listed
  rw [Path.key_down_congr proper filled (Files.filled_of_node there) made.named.symm] at keyed
  rwa [(Path.key_down_inj proper (Files.filled_of_node there) named).mp keyed]

include pure in
/-- A file that was there and could be read then is a source of the snapshot. -/
theorem listed_of_read {names : List String} (proper : ∀ name ∈ names, (Path.Component.name name).Proper)
    (filled : directory.text.toList ≠ []) (kept : ∀ name ∈ names, name ∉ project.ignored)
    (supported : project.analyzer.supports (directory.down names) = true) {content : ByteArray}
    (read : before.read (directory.down names) = .ok content) : names ∈ project.listed snapshot.project old := by
  obtain ⟨modified, found⟩ := earlier.at?_of_read there read (place_for_made made proper filled)
  have same := supports_down_congr pure aggregates before before made.named
    (Files.filled_of_node there) filled proper (fun none => read_of_node there (none ▸ found))
    (by rintro rfl; exact read)
  exact (mem_listed (earlier.node there)).mpr ⟨⟨content, modified, found⟩, kept, same.trans supported⟩

include sound here

/-- The sources of a checked snapshot are still there with their contents. -/
theorem checked_source (apart : Apart seen) (knew : ∀ path content, before.read path = .ok content → seen content)
    (know : ∀ path content, files.read path = .ok content → seen content)
    (checked : Snapshots.verify files snapshot.manifest.toList = .ok true) {names : List String}
    (listed : names ∈ project.listed snapshot.project old) : ∃ content modified,
      before.read (snapshot.project.down names) = .ok content ∧ node.at? names = some (.file content modified) := by
  obtain ⟨content, read⟩ := read_listed earlier there made.shape listed
  have entry := (manifest_of_snapshotOf earlier there aggregates made.shape).mpr ⟨names, listed, content, read, rfl, rfl⟩
  have live := Snapshots.verify_true checked _ (Std.ExtTreeMap.mem_toList_iff_getElem?_eq_some.mpr entry)
  obtain ⟨stamp, found, digest⟩ : ∃ stamp, FileStamp.read files ⟨(snapshot.project.down names).key⟩ = .ok (some stamp) ∧
      stamp.digest = Digest.ofBytes content := by
    simp only [FileStamp.digestOf] at live
    cases result : FileStamp.read files ⟨(snapshot.project.down names).key⟩ with
    | error error => simp [result, Except.map] at live
    | ok stamp => simpa [result, Except.map] using live
  obtain ⟨now, reread, -, same⟩ := FileStamp.read_live found
  obtain rfl : now = content := apart now content (know _ _ reread) (knew _ _ read) (same.symm.trans digest)
  have place : (Path.mk (snapshot.project.down names).key).place = directory.place ++ names.map .name := by
    have settled : (Path.mk (snapshot.project.down names).key).place = (snapshot.project.down names).place :=
      Path.place_normalize _
    rw [settled]
    exact place_of_made made there (proper_of_listed (earlier.node there) listed)
  obtain ⟨modified, found⟩ := sound.at?_of_read here reread place
  exact ⟨now, modified, read, found⟩

include pure in
/-- A checked snapshot that accounts for the files lists all source files. -/
theorem checked_complete (apart : Apart seen) (knew : ∀ path content, before.read path = .ok content → seen content)
    (know : ∀ path content, files.read path = .ok content → seen content)
    (checked : Snapshots.verify files snapshot.manifest.toList = .ok true)
    (accounted : project.Accounted before directory snapshot old node) :
    ∀ names ∈ project.listed directory node, names ∈ project.listed snapshot.project old := by
  intro names member
  obtain ⟨⟨content, modified, found⟩, kept, supported⟩ := (mem_listed (sound.node here)).mp member
  cases read : before.read (directory.down names) with
  | ok content =>
    exact listed_of_read pure aggregates earlier made there (proper_of_listed (sound.node here) member) (Files.filled_of_node here)
      kept supported read
  | error fault =>
    obtain ⟨front, within, known⟩ := accounted names content modified found (by rw [read]; rfl)
    obtain ⟨_, _, -, file⟩ := checked_source aggregates earlier made there sound here apart knew know checked known
    exact Node.eq_of_file_prefix file found within ▸ known

include pure in
/-- A checked snapshot that lists all source files is the one that would be made now. -/
theorem checked_alike (apart : Apart seen) (knew : ∀ path content, before.read path = .ok content → seen content)
    (know : ∀ path content, files.read path = .ok content → seen content)
    (checked : Snapshots.verify files snapshot.manifest.toList = .ok true)
    (fits : node.InReach directory)
    (complete : ∀ names ∈ project.listed directory node, names ∈ project.listed snapshot.project old) :
    Alike Snapshot.keyed (.ok snapshot) (project.snapshotOf files directory) := by
  have source {names : List String} (listed : names ∈ project.listed snapshot.project old) : ∃ content modified,
      before.read (snapshot.project.down names) = .ok content ∧ node.at? names = some (.file content modified) :=
    checked_source aggregates earlier made there sound here apart knew know checked listed
  have same : ∀ names, names ∈ project.listed snapshot.project old ↔ names ∈ project.listed directory node := by
    refine fun names => ⟨fun listed => ?_, complete names⟩
    obtain ⟨content, modified, read, found⟩ := source listed
    obtain ⟨-, kept, supported⟩ := (mem_listed (earlier.node there)).mp listed
    have same := supports_down_congr pure aggregates before files made.named
      (Files.filled_of_node there) (Files.filled_of_node here) (proper_of_listed (earlier.node there) listed)
      (fun none => none ▸ read) fun none => read_of_node here (none ▸ found)
    exact (mem_listed (sound.node here)).mpr ⟨⟨content, modified, found⟩, kept, same.symm.trans supported⟩
  have alike := snapshotOf_congr earlier there pure aggregates sound here made.named
    (listed_congr (earlier.node there) (sound.node here) same) fun names listed => by
      obtain ⟨content, modified, read, found⟩ := source listed
      exact ⟨content, read, sound.read_down here found (fits names content modified found)⟩
  rw [made.shape] at alike
  exact alike

/-- A check fails only over a file that stands where a directory with a source was. -/
theorem unchecked_file {error : StoreError} (failed : Snapshots.verify files snapshot.manifest.toList = .error error) :
    ∃ names content modified, node.at? names = some (.file content modified) ∧
      ∃ source ∈ project.listed snapshot.project old, names <+: source ∧ names ≠ source := by
  obtain ⟨checked, key, digest, rest, split, -, unreadable⟩ := Snapshots.verify_error_iff.mp failed
  have member : (key, digest) ∈ snapshot.manifest.toList := split ▸ List.mem_append_right _ List.mem_cons_self
  have entry := Std.ExtTreeMap.mem_toList_iff_getElem?_eq_some.mp member
  obtain ⟨source, listed, content, read, rfl, -⟩ := (manifest_of_snapshotOf earlier there aggregates made.shape).mp entry
  obtain ⟨fault, fails, known⟩ : ∃ fault, files.node ⟨(snapshot.project.down source).key⟩ = .error fault ∧
      fault.isNotFound = false := by
    simp only [FileStamp.digestOf, FileStamp.read] at unreadable
    split at unreadable
    next fault fails =>
      cases missing : fault.isNotFound with
      | false => exact ⟨fault, fails, missing⟩
      | true => simp [missing, Except.map] at unreadable
    next => cases unreadable
    next => cases unreadable
  obtain ⟨above, located⟩ : ∃ last, before.locate (snapshot.project.down source) = .ok last := by
    simp only [Files.read, Files.node] at read
    cases located : before.locate (snapshot.project.down source) with
    | error fault => simp [located, Except.map] at read
    | ok last => exact ⟨last, rfl⟩
  obtain ⟨clean, fits⟩ := Files.locate_clean located
  obtain ⟨⟨content, modified, held⟩, -⟩ := (mem_listed (earlier.node there)).mp listed
  have named := ((earlier.node there).at? held).1
  have place := place_of_made made there (proper_of_listed (earlier.node there) listed)
  obtain ⟨names, within, short, content, modified, found⟩ := sound.key_fault here named place clean fits fails known
  exact ⟨names, content, modified, found, source, listed, within, short⟩

/-- The check can be made where the files are accounted for: the snapshot lists what was below a
directory, so it does not list a file in its place. -/
theorem check_settles (accounted : project.Accounted before directory snapshot old node) (error : StoreError) :
    Snapshots.verify files snapshot.manifest.toList ≠ .error error := by
  intro failed
  obtain ⟨names, content, modified, found, source, known, within, short⟩ :=
    unchecked_file aggregates earlier made there sound here failed
  obtain ⟨⟨_, _, held⟩, -⟩ := (mem_listed (earlier.node there)).mp known
  have proper : ∀ name ∈ names, (Path.Component.name name).Proper :=
    fun name member => (((sound.node here).at? found).1 name member).proper
  have gone : (before.read (directory.down names)).isOk = false := by
    cases read : before.read (directory.down names) with
    | error fault => rfl
    | ok content =>
      obtain ⟨modified, file⟩ := earlier.at?_of_read there read (place_for_made made proper (Files.filled_of_node here))
      exact (short (Node.eq_of_file_prefix file held within)).elim
  obtain ⟨front, ahead, member⟩ := accounted names content modified found gone
  obtain ⟨⟨_, _, file⟩, -⟩ := (mem_listed (earlier.node there)).mp member
  obtain rfl : front = source := Node.eq_of_file_prefix file held (ahead.trans within)
  exact short (within.eq_of_length (Nat.le_antisymm within.length_le ahead.length_le))

end

end Project
end FreshDocs
