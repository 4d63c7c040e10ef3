import FreshDocs.Files.Tree
import FreshDocs.Proofs.PathDescents

/-! Where paths lead in a tree of files. There are no links, so a path that leads anywhere leads to
its place: what is found there depends on the key of the path only, however it is spelled. -/

namespace FreshDocs

structure Files.Name (name : String) : Prop where
  proper : (Path.Component.name name).Proper
  free : '\x00' ∉ name.toList
  short : name.utf8ByteSize ≤ Files.nameLimit

/-- A tree in which the entries of a directory have different names. -/
inductive Node.Sound : Node → Prop where
  | file (content : ByteArray) (modified : Timestamp) : Sound (.file content modified)
  | directory (entries : List (String × Node)) (distinct : (entries.map (·.1)).Nodup)
      (named : ∀ entry ∈ entries, Files.Name entry.1) (below : ∀ entry ∈ entries, Sound entry.2) :
      Sound (.directory entries)

structure Files.Sound (files : Files) : Prop where
  tree : files.root.Sound
  current : ∃ entries, files.root.at? files.current = some (.directory entries)

namespace Node

theorem at?_append (front back : List String) (node : Node) :
    node.at? (front ++ back) = (node.at? front).bind (at? back) := by
  induction front generalizing node with
  | nil => rfl
  | cons name rest ih =>
    simp only [List.cons_append, at?]
    cases node.entry? name with
    | none => rfl
    | some next => exact ih next

theorem mem_of_entry? {entries : List (String × Node)} {name : String} {next : Node}
    (entry : Node.entry? name (.directory entries) = some next) : (name, next) ∈ entries := by
  obtain ⟨⟨other, node⟩, found, rfl⟩ := Option.map_eq_some_iff.mp entry
  have named : other = name := by simpa using List.find?_some found
  exact named ▸ List.mem_of_find?_eq_some found

theorem Sound.entry? {node next : Node} {name : String} (sound : node.Sound) (entry : node.entry? name = some next) :
    Files.Name name ∧ next.Sound := by
  cases sound with
  | file content modified => cases entry
  | directory entries distinct named below =>
    have member := mem_of_entry? entry
    exact ⟨named _ member, below _ member⟩

theorem Sound.at? {node next : Node} {names : List String} (sound : node.Sound) (found : node.at? names = some next) :
    (∀ name ∈ names, Files.Name name) ∧ next.Sound := by
  induction names generalizing node with
  | nil =>
    cases found
    exact ⟨by simp, sound⟩
  | cons name rest ih =>
    obtain ⟨middle, entry, later⟩ := Option.bind_eq_some_iff.mp found
    obtain ⟨named, below⟩ := sound.entry? entry
    obtain ⟨others, last⟩ := ih below later
    exact ⟨List.forall_mem_cons.mpr ⟨named, others⟩, last⟩

private theorem isDirectory_of_entry? {node next : Node} {name : String} (entry : node.entry? name = some next) :
    node.isDirectory = true := by
  cases node with
  | file content modified => cases entry
  | directory entries => rfl

end Node

namespace Files
open FreshDocs.Path (Component enter movingParts)

/-- The steps of a way lead from the root to a node. -/
def Leads (root : Node) : List (String × Node) → Node → Prop
  | [], node => node = root
  | (name, parent) :: above, node => parent.entry? name = some node ∧ Leads root above parent

def way (above : List (String × Node)) : List Component :=
  above.map (fun step => .name step.1) ++ [.root]

theorem Leads.at? {root node : Node} {above : List (String × Node)} (leads : Leads root above node) :
    root.at? (above.map (·.1)).reverse = some node := by
  induction above generalizing node with
  | nil =>
    cases leads
    rfl
  | cons step rest ih =>
    obtain ⟨entry, before⟩ := leads
    rw [List.map_cons, List.reverse_cons, Node.at?_append, ih before]
    simp [Node.at?, entry]

theorem way_names (above : List (String × Node)) : way above = (above.map (·.1)).map Component.name ++ [.root] := by
  rw [way, List.map_map]
  rfl

/-- A way leads through the components that are left of the parts it follows. -/
theorem follow_leads {root node : Node} {above : List (String × Node)} (parts : List (List Char))
    (leads : Leads root above node) {last : List (String × Node) × Node} (found : follow above node parts = .ok last) :
    Leads root last.1 last.2 ∧ way last.1 = (movingParts parts).foldl enter (way above) := by
  fun_induction follow above node parts with
  | case1 =>
    cases found
    exact ⟨leads, rfl⟩
  | case2 | case6 | case7 => cases found
  | case3 above node part rest _ still ih =>
    obtain ⟨later, same⟩ := ih leads found
    refine ⟨later, same.trans ?_⟩
    rcases still with rfl | rfl <;> simp [movingParts]
  | case4 node rest _ _ ih =>
    obtain ⟨later, same⟩ := ih leads found
    refine ⟨later, same.trans ?_⟩
    simp [movingParts, Component.ofPart, way, enter]
  | case5 node rest _ name parent others _ ih =>
    obtain ⟨later, same⟩ := ih leads.2 found
    refine ⟨later, same.trans ?_⟩
    simp [movingParts, Component.ofPart, way, enter]
  | case8 above node part rest _ still up name _ next entry ih =>
    obtain ⟨later, same⟩ := ih ⟨entry, leads⟩ found
    refine ⟨later, same.trans ?_⟩
    rw [not_or] at still
    simp [movingParts, Component.ofPart, way, enter, still, up, name]

/-- Where a place lies in a tree with a current directory: its components, the last one first. -/
def spot (files : Files) (place : List Component) : List Component :=
  if .root ∈ place then place.reverse
  else place.foldl enter (files.current.reverse.map Component.name ++ [.root])

private theorem here_leads {files : Files} (sound : files.Sound) :
    Leads files.root files.here.1 files.here.2 ∧ way files.here.1 = files.current.reverse.map Component.name ++ [.root] := by
  obtain ⟨entries, placed⟩ := sound.current
  have walked (names : List String) {above : List (String × Node)} {node last : Node} (leads : Leads files.root above node)
      (found : node.at? names = some last) :
      let enter (reached : List (String × Node) × Node) (name : String) :=
        ((name, reached.2) :: reached.1, (Node.entry? name reached.2).getD default)
      let there := names.foldl enter (above, node)
      Leads files.root there.1 there.2 ∧ there.1.map (·.1) = names.reverse ++ above.map (·.1) := by
    induction names generalizing above node with
    | nil => exact ⟨leads, rfl⟩
    | cons name rest ih =>
      obtain ⟨next, entry, later⟩ := Option.bind_eq_some_iff.mp found
      have step : Leads files.root ((name, node) :: above) ((Node.entry? name node).getD default) := by
        rw [entry]
        exact ⟨entry, leads⟩
      obtain ⟨leads, names⟩ := ih step (by rwa [entry])
      exact ⟨leads, by simpa using names⟩
  obtain ⟨leads, names⟩ := walked files.current (show Leads files.root [] files.root from rfl) placed
  refine ⟨leads, ?_⟩
  rw [way_names]
  exact congrArg (fun names => names.map Component.name ++ [.root]) (names.trans (List.append_nil _))

/-- Entering what is left of some components leads where these lead. -/
theorem foldl_rebase (base : List Component) {components stack : List Component} (rootless : .root ∉ components)
    (bottomless : .root ∉ stack) : components.foldl enter (stack.reverse.foldl enter base) =
      (components.foldl enter stack).reverse.foldl enter base := by
  induction components generalizing stack with
  | nil => rfl
  | cons first rest ih =>
    rw [List.mem_cons, not_or] at rootless
    have entered : enter (stack.reverse.foldl enter base) first = (enter stack first).reverse.foldl enter base := by
      cases first with
      | root => exact (rootless.1 rfl).elim
      | here => rfl
      | name text => simp [enter]
      | up =>
        cases stack with
        | nil => rfl
        | cons top rest =>
          cases top with
          | root => simp at bottomless
          | here | up | name => simp [enter]
    have later : .root ∉ enter stack first := by
      have same := @Path.root_mem_foldl [first] stack (by simpa using rootless.1)
      exact fun member => bottomless (same.mp member)
    rw [List.foldl_cons, List.foldl_cons, entered, ih rootless.2 later]

def start (files : Files) (path : Path) : List (String × Node) × Node :=
  if path.isAbsolute then ([], files.root) else files.here

theorem follow_of_locate {files : Files} {path : Path} {last : List (String × Node) × Node} (found : files.locate path = .ok last) :
    follow (files.start path).1 (files.start path).2 (Text.split '/' path.text.toList) = .ok last := by
  simp only [locate] at found
  split at found
  · cases found
  split at found
  · cases found
  split at found
  · cases found
  exact found

/-- A path leads to its place, if it leads anywhere. -/
theorem locate_leads {files : Files} (sound : files.Sound) {path : Path} {last : List (String × Node) × Node}
    (found : files.locate path = .ok last) : Leads files.root last.1 last.2 ∧ way last.1 = files.spot path.place := by
  have found := follow_of_locate found
  have placed := path.place_parts
  unfold start at found
  by_cases absolute : path.isAbsolute
  · rw [if_pos absolute] at found placed
    obtain ⟨leads, same⟩ := follow_leads _ (show Leads files.root [] files.root from rfl) found
    rw [spot, if_pos (Path.root_mem_place.mpr absolute), placed]
    exact ⟨leads, same⟩
  · rw [if_neg absolute] at found placed
    obtain ⟨leads, start⟩ := here_leads sound
    obtain ⟨leads, same⟩ := follow_leads _ leads found
    have rebased := foldl_rebase (files.current.reverse.map Component.name ++ [.root]) path.rootless_moving
      (@List.not_mem_nil _ Component.root)
    rw [spot, if_neg fun rooted => absolute (Path.root_mem_place.mp rooted), same, start, ← path.place.reverse_reverse, placed]
    exact ⟨leads, rebased⟩

private theorem spot_append (files : Files) (place : List Component) (names : List String) :
    files.spot (place ++ names.map .name) = (names.map Component.name).reverse ++ files.spot place := by
  have rooted : .root ∈ place ++ names.map Component.name ↔ .root ∈ place := by simp
  by_cases absolute : .root ∈ place
  · rw [spot, if_pos (rooted.mpr absolute), spot, if_pos absolute, List.reverse_append]
  · rw [spot, if_neg fun member => absolute (rooted.mp member), spot, if_neg absolute, List.foldl_append,
      Path.foldl_enter_names]

theorem node_eq_ok {files : Files} {path : Path} {node : Node} :
    files.node path = .ok node ↔ ∃ above, files.locate path = .ok (above, node) := by
  simp only [Files.node]
  cases files.locate path with
  | error fault => simp [Except.map]
  | ok last => simp [Except.map, Prod.ext_iff, eq_comm]

/-- What a path leads to lies where its place is, as seen from any directory that leads there. -/
theorem Sound.at?_of_node {files : Files} (sound : files.Sound) {directory path : Path} {names : List String}
    {node next : Node} (here : files.node directory = .ok node) (found : files.node path = .ok next)
    (place : path.place = directory.place ++ names.map .name) : node.at? names = some next := by
  obtain ⟨above, located⟩ := node_eq_ok.mp here
  obtain ⟨further, reached⟩ := node_eq_ok.mp found
  obtain ⟨leads, way⟩ := locate_leads sound located
  obtain ⟨later, same⟩ := locate_leads sound reached
  have steps : further.map (·.1) = names.reverse ++ above.map (·.1) := by
    rw [place, spot_append, ← way, way_names, way_names, ← List.map_reverse, ← List.append_assoc, ← List.map_append] at same
    exact (List.map_inj_right fun _ _ equal => Component.name.inj equal).mp (List.append_cancel_right same)
  have there := later.at?
  rw [steps, List.reverse_append, List.reverse_reverse, Node.at?_append, leads.at?] at there
  exact there

theorem Sound.node {files : Files} (sound : files.Sound) {path : Path} {node : Node} (found : files.node path = .ok node) :
    node.Sound := by
  obtain ⟨above, located⟩ := node_eq_ok.mp found
  exact (sound.tree.at? (locate_leads sound located).1.at?).2

/-- A file that can be read lies where its place is. -/
theorem Sound.at?_of_read {files : Files} (sound : files.Sound) {directory path : Path} {names : List String} {node : Node}
    (here : files.node directory = .ok node) {content : ByteArray} (read : files.read path = .ok content)
    (place : path.place = directory.place ++ names.map .name) : ∃ modified, node.at? names = some (.file content modified) := by
  simp only [Files.read] at read
  split at read
  next => cases read
  next => cases read
  next held modified found =>
    cases read
    exact ⟨modified, sound.at?_of_node here found place⟩

/-! ### Going on -/

private theorem follow_append (above : List (String × Node)) (node : Node) (front back : List (List Char)) :
    follow above node (front ++ back) =
      match follow above node front with
      | .error fault => .error fault
      | .ok (above, node) => follow above node back := by
  induction front generalizing above node with
  | nil => rfl
  | cons part rest ih =>
    rw [List.cons_append, follow.eq_def above node (part :: (rest ++ back)), follow.eq_def above node (part :: rest)]
    dsimp only
    split
    · rfl
    split
    · exact ih above node
    split
    · cases above with
      | nil => exact ih [] node
      | cons step others => exact ih others step.2
    split
    · rfl
    cases node.entry? (String.ofList part) with
    | none => rfl
    | some next => exact ih _ next

/-- What is followed to its end is followed to each part of it. -/
theorem follow_append_ok {above : List (String × Node)} {node : Node} {front back : List (List Char)}
    {last : List (String × Node) × Node} : follow above node (front ++ back) = .ok last ↔
      ∃ middle, follow above node front = .ok middle ∧ follow middle.1 middle.2 back = .ok last := by
  rw [follow_append]
  cases follow above node front <;> simp

/-- A slash at the end of a path makes no difference to what it leads to. -/
theorem follow_parts {path : Path} {parts : List (List Char)} (held : path.Parts parts) {above : List (String × Node)}
    {node : Node} {last : List (String × Node) × Node}
    (found : follow above node (Text.split '/' path.text.toList) = .ok last) : follow above node parts = .ok last := by
  rcases held.2 with shape | shape
  · rwa [shape] at found
  · rw [shape, follow_append_ok] at found
    obtain ⟨middle, start, ending⟩ := found
    simp only [follow] at ending
    split at ending
    · cases ending
    · simpa [start] using ending

private theorem follow_name {above : List (String × Node)} {node next : Node} {name : String} (named : Files.Name name)
    (entry : node.entry? name = some next) : follow above node [name.toList] = .ok ((name, node) :: above, next) := by
  obtain ⟨filled, -, here, up⟩ := named.proper
  have short : ¬nameLimit < name.utf8ByteSize := Nat.not_lt.mpr named.short
  simp [follow, Node.isDirectory_of_entry? entry, filled, here, up, short, entry]

/-- One more name leads to the entry of this name. -/
theorem node_join {files : Files} {path : Path} {node next : Node} {name : String} (named : Files.Name name)
    (here : files.node path = .ok node) (entry : node.entry? name = some next)
    (fits : (path.join ⟨name⟩).text.utf8ByteSize ≤ pathLimit) : files.node (path.join ⟨name⟩) = .ok next := by
  obtain ⟨above, located⟩ := node_eq_ok.mp here
  refine node_eq_ok.mpr ⟨(name, node) :: above, ?_⟩
  simp only [locate] at located ⊢
  split at located
  · cases located
  next clean =>
  split at located
  · cases located
  next some =>
  split at located
  · cases located
  next short =>
  have filled : path.text.toList ≠ [] := by simpa using some
  obtain ⟨parts, held, joined⟩ := Path.split_join named.proper filled
  have clean : ¬(path.join ⟨name⟩).text.toList.contains '\x00' = true := by
    rcases Path.text_join named.proper filled with ⟨text, -⟩ | text
    · rw [text]
      simpa [named.free] using clean
    · rw [text]
      simpa [named.free] using clean
  have some : ¬(path.join ⟨name⟩).text.isEmpty = true := by
    simpa using Path.join_filled named.proper filled
  rw [if_neg clean, if_neg some, if_neg (Nat.not_lt.mpr fits), Path.isAbsolute_join named.proper filled, joined, follow_append,
    follow_parts held located]
  exact follow_name named entry

theorem filled_of_node {files : Files} {path : Path} {node : Node} (found : files.node path = .ok node) :
    path.text.toList ≠ [] := by
  intro empty
  have empty : path.text = "" := by simpa using empty
  simp [Files.node, locate, empty, Except.map] at found

/-- Names lead on from a directory to what lies at their end. -/
theorem node_down {files : Files} {path : Path} {node next : Node} {names : List String} (sound : node.Sound)
    (here : files.node path = .ok node) (there : node.at? names = some next)
    (fits : (path.down names).text.utf8ByteSize ≤ pathLimit) : files.node (path.down names) = .ok next := by
  induction names generalizing path node with
  | nil =>
    cases there
    exact here
  | cons name rest ih =>
    obtain ⟨middle, entry, later⟩ := Option.bind_eq_some_iff.mp there
    obtain ⟨named, below⟩ := sound.entry? entry
    have proper : ∀ name ∈ rest, (Component.name name).Proper := fun name member => ((below.at? later).1 name member).proper
    have shorter := Text.utf8ByteSize_le (Path.text_sublist_down proper (Path.join_filled named.proper (filled_of_node here)))
    have step := node_join named here entry (Nat.le_trans shorter fits)
    exact ih below step later fits

/-- A file below a directory can be read. -/
theorem Sound.read_down {files : Files} (sound : files.Sound) {directory : Path} {names : List String} {node : Node}
    (here : files.node directory = .ok node) {content : ByteArray} {modified : Timestamp}
    (found : node.at? names = some (.file content modified)) (fits : (directory.down names).text.utf8ByteSize ≤ pathLimit) :
    files.read (directory.down names) = .ok content := by
  simp only [Files.read, node_down (sound.node here) here found fits]

/-! ### Keys as paths -/

/-- The parts of a stack of components as they are followed: a root is where they start. -/
def kept (stack : List Component) : List (List Char) :=
  (stack.reverse.filter (· ≠ .root)).map (·.toText.toList)

theorem kept_cons {component : Component} (inner : component ≠ .root) (stack : List Component) :
    kept (component :: stack) = kept stack ++ [component.toText.toList] := by
  simp [kept, inner]

private theorem above_of_name {above : List (String × Node)} {node : Node} {part : List Char}
    (moves : part ≠ [] ∧ part ≠ ['.'] ∧ part ≠ ['.', '.']) {reached : List (String × Node) × Node}
    (walked : follow above node [part] = .ok reached) : ∃ name, reached.1 = (name, node) :: above := by
  rw [follow.eq_def] at walked
  simp only [moves, or_self, if_false] at walked
  split at walked
  · cases walked
  split at walked
  · cases walked
  split at walked
  · cases walked
  · cases walked
    exact ⟨_, rfl⟩

theorem follow_still {above : List (String × Node)} {node : Node} {part : List Char} (still : part = [] ∨ part = ['.'])
    {reached : List (String × Node) × Node} (walked : follow above node [part] = .ok reached) : reached = (above, node) := by
  simp only [follow, still, if_true] at walked
  split at walked
  · cases walked
  · exact (Except.ok.inj walked).symm

/-- A step up takes back a step into a name. -/
theorem follow_back {above : List (String × Node)} {node : Node} {part : List Char}
    (moves : part ≠ [] ∧ part ≠ ['.'] ∧ part ≠ ['.', '.']) {reached passed : List (String × Node) × Node}
    (walked : follow above node [part] = .ok reached) (back : follow reached.1 reached.2 [['.', '.']] = .ok passed) :
    passed = (above, node) := by
  obtain ⟨name, shape⟩ := above_of_name moves walked
  rw [follow.eq_def, shape] at back
  dsimp only at back
  split at back
  · cases back
  · simpa [follow] using back.symm

/-- What is left of some parts with one more leads where that part leads on to. -/
theorem follow_kept_part {above : List (String × Node)} {node : Node} {part : List Char} (slashless : '/' ∉ part)
    {stack : List Component} (settled : Path.Settled stack) (top : .root ∈ stack → above = [])
    {reached passed : List (String × Node) × Node} (walked : follow above node (kept stack) = .ok reached)
    (one : follow reached.1 reached.2 [part] = .ok passed) :
    let later := (movingParts [part]).foldl enter stack
    Path.Settled later ∧ (.root ∈ later → above = []) ∧ follow above node (kept later) = .ok passed := by
  have pushed {component : Component} (inner : component ≠ .root) (text : component.toText.toList = part) :
      follow above node (kept (component :: stack)) = .ok passed := by
    rw [kept_cons inner, text, follow_append_ok]
    exact ⟨reached, walked, one⟩
  by_cases still : part = [] ∨ part = ['.']
  · have none : movingParts [part] = [] := by
      rcases still with rfl | rfl <;> simp [movingParts]
    rw [none, follow_still still one]
    exact ⟨settled, top, walked⟩
  rw [not_or] at still
  by_cases up : part = ['.', '.']
  · subst up
    have moved : movingParts [['.', '.']] = [.up] := by simp [movingParts, Component.ofPart]
    rw [moved, List.foldl_cons, List.foldl_nil]
    refine ⟨settled.enter trivial (by simp), ?_⟩
    cases stack with
    | nil => exact ⟨by simp [enter], pushed (by simp) rfl⟩
    | cons first below =>
      cases first with
      | here => exact settled.elim
      | up => exact ⟨by simpa [enter] using top, pushed (by simp) rfl⟩
      | root =>
        -- Nothing lies above the root, so a step up stays there.
        cases settled
        cases top List.mem_cons_self
        cases (show reached = ([], node) from (Except.ok.inj walked).symm)
        refine ⟨top, ?_⟩
        rw [follow.eq_def] at one
        dsimp only at one
        split at one
        · cases one
        · cases (show ([], node) = passed by simpa [follow] using one)
          exact walked
      | name text =>
        rw [kept_cons (by simp), follow_append_ok] at walked
        obtain ⟨origin, before, step⟩ := walked
        obtain ⟨filled, -, here, up⟩ := settled.1
        rw [follow_back ⟨filled, here, up⟩ step one]
        exact ⟨fun member => top (List.mem_cons_of_mem _ member), before⟩
  · have moved : movingParts [part] = [.name (String.ofList part)] := by
      simp [movingParts, Component.ofPart, still, up]
    have proper : (Component.name (String.ofList part)).Proper := by
      simpa [Component.ofPart, still, up] using Path.ofPart_proper still.1 slashless
    rw [moved, List.foldl_cons, List.foldl_nil]
    have entered := settled.enter proper (by simp)
    exact ⟨entered, by simpa [enter] using top, pushed (by simp) (by simp [Component.toText])⟩

/-- What is left of some parts leads where they lead. -/
theorem follow_kept {above : List (String × Node)} {node : Node} {parts : List (List Char)}
    (free : ∀ part ∈ parts, '/' ∉ part) {stack : List Component} (settled : Path.Settled stack)
    (top : .root ∈ stack → above = []) {reached : List (String × Node) × Node}
    (walked : follow above node (kept stack) = .ok reached) {ending : List (String × Node) × Node}
    (found : follow reached.1 reached.2 parts = .ok ending) :
    follow above node (kept ((movingParts parts).foldl enter stack)) = .ok ending := by
  induction parts generalizing stack reached with
  | nil =>
    cases found
    exact walked
  | cons part rest ih =>
    obtain ⟨slashless, others⟩ := List.forall_mem_cons.mp free
    rw [← List.singleton_append] at found ⊢
    obtain ⟨passed, one, later⟩ := follow_append_ok.mp found
    obtain ⟨settled, top, walked⟩ := follow_kept_part slashless settled top walked one
    rw [movingParts, List.filter_append, List.map_append, List.foldl_append]
    exact ih others settled top walked later

def lead (path : Path) : List Component :=
  if path.isAbsolute then [.root] else []

theorem settled_lead (path : Path) : Path.Settled (lead path) := by
  by_cases absolute : path.isAbsolute <;> simp [lead, absolute, Path.Settled]

theorem start_of_root_mem {files : Files} {path : Path} (rooted : .root ∈ lead path) : (files.start path).1 = [] := by
  by_cases absolute : path.isAbsolute <;> simp_all [lead, start]

theorem follow_lead (files : Files) (path : Path) :
    follow (files.start path).1 (files.start path).2 (kept (lead path)) = .ok (files.start path) := by
  have empty : kept (lead path) = [] := by
    by_cases absolute : path.isAbsolute <;> simp [lead, absolute, kept]
  rw [empty]
  rfl

private theorem start_isDirectory {files : Files} (sound : files.Sound) (path : Path) : (files.start path).2.isDirectory = true := by
  obtain ⟨entries, placed⟩ := sound.current
  unfold start
  split
  · cases current : files.current with
    | nil =>
      rw [current] at placed
      rw [show files.root = _ from Option.some.inj placed]
      rfl
    | cons name rest =>
      rw [current] at placed
      obtain ⟨next, entry, -⟩ := Option.bind_eq_some_iff.mp placed
      exact Node.isDirectory_of_entry? entry
  · obtain ⟨leads, way⟩ := here_leads sound
    rw [way_names] at way
    have names : files.here.1.map (·.1) = files.current.reverse :=
      (List.map_inj_right fun _ _ equal => Component.name.inj equal).mp (List.append_cancel_right way)
    have there := leads.at?
    rw [names, List.reverse_reverse, placed] at there
    rw [← Option.some.inj there]
    rfl

/-- A key is followed like the components it was spelled from. -/
theorem follow_key {path : Path} (filled : path.key.toList ≠ []) (above : List (String × Node)) {node : Node}
    (directory : node.isDirectory = true) :
    follow above node (Text.split '/' path.key.toList) = follow above node (kept path.place.reverse) := by
  have spelled : Path.Spelled path.place := (Path.spelled_components path).settled.spelled
  rw [kept, List.reverse_reverse]
  cases place : path.place with
  | nil =>
    have none : (path.components.foldl enter []).reverse = [] := place
    exact (filled (by simp [Path.key, Path.normalize, none, Path.ofComponents])).elim
  | cons first rest =>
    rw [place] at spelled
    have free : ∀ component ∈ rest, '/' ∉ component.toText.toList :=
      fun component member => (Path.toText_moves (spelled.tail.proper component member) (spelled.inner component member)).2.2
    have rootless : ∀ component ∈ rest, component ≠ .root := fun component member => (spelled.inner component member).1
    have rest_kept : rest.filter (· ≠ .root) = rest := List.filter_eq_self.mpr (by simpa using rootless)
    by_cases root : first = .root
    · subst root
      have text : path.key.toList = '/' :: ['/'].intercalate (rest.map (·.toText.toList)) := by
        rw [← Path.text_ofComponents_root, ← place]
        rfl
      have dropped : (Component.root :: rest).filter (· ≠ .root) = rest := by simpa using rest_kept
      have skipped (more : List (List Char)) : follow above node ([] :: more) = follow above node more := by
        rw [follow.eq_def above node ([] :: more)]
        simp [directory]
      rw [text, Text.split, if_pos rfl, dropped, skipped]
      cases rest with
      | nil => simp [Text.split, follow, directory]
      | cons next others =>
        rw [Text.split_intercalate (by simp)]
        intro part member
        obtain ⟨component, listed, rfl⟩ := List.mem_map.mp member
        exact free component listed
    · have text : path.key.toList = ['/'].intercalate ((first :: rest).map (·.toText.toList)) := by
        have rootless : .root ∉ first :: rest := by
          rw [List.mem_cons, not_or]
          exact ⟨Ne.symm root, fun member => rootless _ member rfl⟩
        rw [← Path.text_ofComponents rootless, ← place]
        rfl
      have whole : (first :: rest).filter (· ≠ .root) = first :: rest := by
        rw [List.filter_cons_of_pos (by simpa using root), rest_kept]
      rw [text, Text.split_intercalate (by simp), whole]
      intro part member
      obtain ⟨component, listed, rfl⟩ := List.mem_map.mp member
      rcases List.mem_cons.mp listed with rfl | listed
      · have proper := spelled.proper component List.mem_cons_self
        cases component with
        | root => exact (root rfl).elim
        | here | up => simp [Component.toText]
        | name text => exact proper.2.1
      · exact free component listed

private theorem kept_names (names : List String) (stack : List Component) :
    kept ((names.map Component.name).reverse ++ stack) = kept stack ++ names.map (·.toList) := by
  induction names generalizing stack with
  | nil => simp
  | cons name rest ih =>
    rw [List.map_cons, List.reverse_cons, List.append_assoc, List.singleton_append, ih, kept_cons (by simp)]
    simp [Component.toText]

/-- Names that cannot be followed to their end are not there, or a file stands in the way. -/
theorem follow_names_fault {node : Node} {names : List String} (named : ∀ name ∈ names, Name name)
    {above : List (String × Node)} {fault : Fault} (fails : follow above node (names.map (·.toList)) = .error fault)
    (known : fault.isNotFound = false) :
    ∃ front, front <+: names ∧ front ≠ names ∧ ∃ content modified, node.at? front = some (.file content modified) := by
  induction names generalizing above node with
  | nil => cases fails
  | cons name rest ih =>
    obtain ⟨first, others⟩ := List.forall_mem_cons.mp named
    obtain ⟨filled, -, here, up⟩ := first.proper
    cases node with
    | file content modified => exact ⟨[], List.nil_prefix, by simp, content, modified, rfl⟩
    | directory entries =>
      have short : ¬nameLimit < name.utf8ByteSize := Nat.not_lt.mpr first.short
      rw [List.map_cons, follow.eq_def] at fails
      simp only [Node.isDirectory, filled, here, up, or_self, if_false, not_true_eq_false, String.ofList_toList, short] at fails
      cases entry : Node.entry? name (.directory entries) with
      | none =>
        rw [entry] at fails
        cases fails
        cases known
      | some next =>
        rw [entry] at fails
        obtain ⟨front, within, short, content, modified, found⟩ := ih others fails
        refine ⟨name :: front, (List.prefix_cons_inj name).mpr within, by simpa using short, content, modified, ?_⟩
        simpa [Node.at?, entry] using found

theorem locate_clean {files : Files} {path : Path} {last : List (String × Node) × Node} (found : files.locate path = .ok last) :
    '\x00' ∉ path.text.toList ∧ path.text.utf8ByteSize ≤ pathLimit := by
  simp only [locate] at found
  split at found
  · cases found
  next clean =>
  split at found
  · cases found
  split at found
  · cases found
  next short => exact ⟨by simpa using clean, Nat.not_lt.mp short⟩

/-- Where a file was once, its key leads to it still, unless nothing is there or a file stands where a
directory was. -/
theorem Sound.key_fault {files : Files} (sound : files.Sound) {directory path : Path} {node : Node}
    (here : files.node directory = .ok node) {names : List String} (named : ∀ name ∈ names, Name name)
    (place : path.place = directory.place ++ names.map .name) (clean : '\x00' ∉ path.text.toList)
    (fits : path.text.utf8ByteSize ≤ pathLimit) {fault : Fault} (fails : files.node ⟨path.key⟩ = .error fault)
    (known : fault.isNotFound = false) :
    ∃ front, front <+: names ∧ front ≠ names ∧ ∃ content modified, node.at? front = some (.file content modified) := by
  obtain ⟨above, located⟩ := node_eq_ok.mp here
  have fails : files.locate ⟨path.key⟩ = .error fault := by
    simp only [Files.node] at fails
    cases found : files.locate ⟨path.key⟩ with
    | error other =>
      rw [found] at fails
      cases fails
      rfl
    | ok last =>
      rw [found] at fails
      cases fails
  have absolute : (Path.mk path.key).isAbsolute = directory.isAbsolute := by
    rw [Bool.eq_iff_iff, ← Path.root_mem_place, ← Path.root_mem_place]
    have same : (Path.mk path.key).place = path.place := Path.place_normalize path
    simp [same, place]
  have smaller := path.key_sublist
  have clean : ¬path.key.toList.contains '\x00' = true := by simpa using fun member => clean (smaller.subset member)
  have fits : ¬pathLimit < path.key.utf8ByteSize := Nat.not_lt.mpr (Nat.le_trans (Text.utf8ByteSize_le smaller) fits)
  simp only [locate, absolute] at fails
  rw [if_neg clean] at fails
  split at fails
  · cases fails
    cases known
  next filled =>
  have filled : path.key.toList ≠ [] := by simpa using filled
  change follow (files.start directory).1 (files.start directory).2 _ = _ at fails
  -- The key goes on from where what is left of the directory leads.
  have reached : follow (files.start directory).1 (files.start directory).2 (kept directory.place.reverse) = .ok (above, node) := by
    rw [Path.place_parts]
    exact follow_kept (fun _ => Text.not_mem_of_mem_split) (settled_lead directory) start_of_root_mem
      (follow_lead files directory) (follow_of_locate located)
  rw [follow_key filled _ (start_isDirectory sound directory), place, List.reverse_append, kept_names, follow_append,
    reached] at fails
  exact follow_names_fault named fails known

end Files
end FreshDocs
