import FreshDocs.Proofs.ProjectContents

/-! What a project answers, told without any stores. Asked through genuine stores it answers the
same: what they serve was made from the content that the file has now, and what they do not serve
is made from it on the spot. -/

namespace FreshDocs

namespace Project

def analysisOf (project : Project) (files : Files) (path : Path) : Except Error (Option Analysis) :=
  match FileStamp.read files path with
  | .error error => .error (.store error)
  | .ok none => .ok none
  | .ok (some stamp) =>
    if project.analyzer.supports path then
      match (project.analyzer.analyze .epoch path (.ofFiles files {} {})).1 with
      | .error error => if error.isNotFound then .ok none else .error (.analysis error)
      | .ok finding => .ok (some (.ofStamp stamp finding.result finding.dependencies))
    else .ok none

def templateOf (compiler : Compiler) (files : Files) (path : Path) : Except Error (Option Template) :=
  match files.readText path with
  | .error fault => if fault.isNotFound then .ok none else .error (.store (.unreadable path fault))
  | .ok source =>
    match compiler path source with
    | .error error => .error (.render error)
    | .ok compiled => .ok (some { path, sourceDigest := Digest.ofText source, compiled })

/-- A call answers as expected, and leaves genuine stores over the same files. -/
structure Answers {α : Type} (project : Project) (compiler : Compiler) (seen : ByteArray → Prop) (keyed : α → α)
    (workspace : Workspace) (result : Except Error α × Workspace) (expected : Except Error α) : Prop where
  alike : Alike keyed result.1 expected
  files : result.2.files = workspace.files
  genuine : result.2.Genuine project.analyzer compiler seen

/-- The digests of the seen contents tell them apart. -/
def Apart (seen : ByteArray → Prop) : Prop :=
  ∀ first second, seen first → seen second → Digest.ofBytes first = Digest.ofBytes second → first = second

section
variable {project : Project} {compiler : Compiler} {seen : ByteArray → Prop} {workspace : Workspace}

private theorem isNotFound_keyed (error : AnalysisError) : error.keyed.isNotFound = error.isNotFound := by
  cases error <;> rfl

/-- An analysis that is stored anew is a genuine one. -/
theorem genuine_set (genuine : workspace.Genuine project.analyzer compiler seen) {now : Timestamp} {path : Path}
    {content : ByteArray} {stamp : FileStamp} {finding : Finding}
    (supported : project.analyzer.supports path = true) (read : workspace.files.read path = .ok content)
    (found : (project.analyzer.analyze now path workspace).1 = .ok finding)
    (named : stamp.path = path) (digest : stamp.digest = Digest.ofBytes content)
    (graph : Dependencies) (analyzed : Std.ExtTreeMap String Nat) :
    Workspace.Genuine project.analyzer compiler seen
      { workspace with
        artifacts := { workspace.artifacts with
          analyses := workspace.artifacts.analyses.set now path.key
            (.ofStamp stamp finding.result finding.dependencies) (some stamp.digest)
          graph }
        analyzed } := by
  refine ⟨?_, genuine.templates, genuine.files⟩
  intro key entry present
  rcases Store.find?_set present with ⟨rfl, value, same⟩ | ⟨tick, held⟩
  · rw [value, same]
    exact .intro now path workspace content stamp finding supported (genuine.files path content read) read found
      rfl rfl named digest
  · exact genuine.analyses key { entry with tick } held

/-- A file that is analyzed anew gives what it gives without stores. -/
theorem analyze_answers (pure : project.analyzer.Pure) (genuine : workspace.Genuine project.analyzer compiler seen)
    (now : Timestamp) {path : Path} (supported : project.analyzer.supports path = true) :
    Answers project compiler seen (Option.map Analysis.keyed) workspace (project.analyze now path workspace)
      (project.analysisOf workspace.files path) := by
  simp only [analyze, analysisOf]
  cases live : FileStamp.read workspace.files path with
  | error error => exact ⟨rfl, rfl, genuine⟩
  | ok found =>
    cases found with
    | none => exact ⟨rfl, rfl, genuine⟩
    | some stamp =>
      obtain ⟨content, read, named, digest⟩ := FileStamp.read_live live
      have bare : (Workspace.ofFiles workspace.files {} {}).files.read path = .ok content := read
      have same := pure.analyze now .epoch rfl read bare
      obtain ⟨analyzed, quiet⟩ := pure.quiet now path workspace
      simp only [supported, if_true]
      generalize (project.analyzer.analyze .epoch path (.ofFiles workspace.files {} {})).1 = expected at same ⊢
      rcases result : project.analyzer.analyze now path workspace with ⟨answer, after⟩
      rw [result] at same quiet
      subst quiet
      cases answer with
      | error error =>
        cases expected with
        | ok finding => cases same
        | error other =>
          have alike : error.keyed = other.keyed := by simpa using same
          have missing : error.isNotFound = other.isNotFound := by
            rw [← isNotFound_keyed error, alike, isNotFound_keyed]
          refine ⟨?_, rfl, genuine.narrow (.refl _) rfl⟩
          dsimp only
          rw [missing]
          cases other.isNotFound <;> simp [Alike, Except.map, Error.keyed, alike]
      | ok finding =>
        cases expected with
        | error error => cases same
        | ok other =>
          have alike : finding = other := by simpa using same
          subst alike
          dsimp only
          rw [Artifacts.set_of_live live rfl]
          exact ⟨rfl, rfl, genuine_set genuine supported read (by rw [result]) named digest _ _⟩

private theorem keyed_ofStamp {first second : FileStamp} (agrees : first.agrees second = true)
    (key : first.path.key = second.path.key) (finding : Finding) :
    (Analysis.ofStamp first finding.result finding.dependencies).keyed =
      (Analysis.ofStamp second finding.result finding.dependencies).keyed := by
  simp only [FileStamp.agrees, Bool.and_eq_true, decide_eq_true_eq] at agrees
  simp [Analysis.keyed, Analysis.ofStamp, key, agrees]

/-- What is served from the store is what the file gives without stores. -/
theorem served_alike (pure : project.analyzer.Pure) (apart : Apart seen)
    (genuine : workspace.Genuine project.analyzer compiler seen) {path : Path} {live : FileStamp}
    (found : FileStamp.read workspace.files path = .ok (some live)) {entry : Store.Entry Analysis}
    (held : workspace.artifacts.analyses.find? path.key = some entry) (same : entry.digest = live.digest)
    (agrees : entry.value.stamp.agrees live = true) :
    Alike (Option.map Analysis.keyed) (.ok (some entry.value)) (project.analysisOf workspace.files path) := by
  obtain ⟨content, read, placed, digest⟩ := FileStamp.read_live found
  obtain ⟨now, origin, past, before, stamp, finding, supported, known, lived, result, shape, named, spelled, stamped⟩ :=
    genuine.analyses path.key entry held
  -- The digest is all that was compared, and it stands for the content.
  have unchanged : before = content :=
    apart before content known (genuine.files path content read) (stamped.symm.trans (same.trans digest))
  subst unchanged
  have supports := (pure.supports named lived read).symm.trans supported
  have bare : (Workspace.ofFiles workspace.files {} {}).files.read path = .ok before := read
  have alike := pure.analyze now .epoch named lived bare
  rw [result] at alike
  rw [shape] at agrees ⊢
  simp only [analysisOf, found, supports, if_true]
  generalize (project.analyzer.analyze .epoch path (.ofFiles workspace.files {} {})).1 = expected at alike ⊢
  cases expected with
  | error error => cases alike
  | ok other =>
    obtain rfl : finding = other := by simpa using alike
    have key : stamp.path.key = live.path.key := by rw [spelled, placed, named]
    exact congrArg (fun found => Except.ok (some found)) (keyed_ofStamp agrees key finding)

/-- The analysis of a file does not depend on the stores. -/
theorem analysis_answers (pure : project.analyzer.Pure) (apart : Apart seen)
    (genuine : workspace.Genuine project.analyzer compiler seen) (now : Timestamp) (path : Path) :
    Answers project compiler seen (Option.map Analysis.keyed) workspace (project.analysis now path workspace)
      (project.analysisOf workspace.files path) := by
  have narrows := Artifacts.Narrows.get workspace.artifacts workspace.files now path
  have kept : Workspace.Genuine project.analyzer compiler seen
      { workspace with artifacts := (workspace.artifacts.get workspace.files now path).2 } :=
    genuine.narrow narrows rfl
  -- Once the store has been asked in vain, only the file counts.
  have missed (free : (workspace.artifacts.get workspace.files now path).1 = .ok none)
      (readable : ∀ error, FileStamp.read workspace.files path ≠ .error error) :
      Answers project compiler seen (Option.map Analysis.keyed) workspace (project.analysis now path workspace)
        (project.analysisOf workspace.files path) := by
    simp only [analysis, lookup, free]
    split
    next supported =>
      obtain ⟨alike, files, genuine⟩ := analyze_answers pure kept now supported
      exact ⟨alike, files, genuine⟩
    next unsupported =>
      refine ⟨?_, rfl, kept⟩
      simp only [analysisOf, unsupported]
      cases live : FileStamp.read workspace.files path with
      | error error => exact absurd live (readable error)
      | ok found => cases found <;> rfl
  cases live : FileStamp.read workspace.files path with
  | error error =>
    simp only [analysis, lookup, Artifacts.get_of_error live, analysisOf, live]
    exact ⟨rfl, rfl, kept⟩
  | ok found =>
    have readable : ∀ error, FileStamp.read workspace.files path ≠ .error error := by simp [live]
    cases found with
    | none => exact missed (Artifacts.get_of_missing live) readable
    | some stamp =>
      rcases Artifacts.get_of_live live with free | ⟨entry, held, same, agrees, served⟩
      · exact missed free readable
      · simp only [analysis, lookup, served]
        exact ⟨served_alike pure apart genuine live held same agrees, rfl, kept⟩

/-! ### Templates -/

/-- A template that is compiled anew gives what it gives without stores. -/
theorem compile_answers (genuine : workspace.Genuine project.analyzer compiler seen) (now : Timestamp)
    (path : Path) :
    Answers project compiler seen (Option.map Template.keyed) workspace (compile compiler now path workspace)
      (templateOf compiler workspace.files path) := by
  simp only [compile, templateOf]
  cases text : workspace.files.readText path with
  | error fault => exact ⟨rfl, rfl, genuine⟩
  | ok source =>
    cases made : compiler path source with
    | error error =>
      simp only [made]
      exact ⟨rfl, rfl, genuine⟩
    | ok compiled =>
      obtain ⟨content, read, decoded⟩ := Files.readText_eq_ok.mp text
      obtain ⟨stamp, live⟩ := FileStamp.read_of_read read
      simp only [made, Artifacts.setTemplate_of_live live]
      refine ⟨rfl, rfl, genuine.analyses, ?_, genuine.files⟩
      intro key entry present
      rcases Store.find?_set present with ⟨rfl, value, same⟩ | ⟨tick, held⟩
      · rw [value, same]
        exact .intro content source (genuine.files path content read) decoded made rfl rfl
          (Digest.ofText_of_fromUTF8 decoded)
      · exact genuine.templates key { entry with tick } held

private theorem served_template_alike (pure : compiler.Pure) (apart : Apart seen)
    (genuine : workspace.Genuine project.analyzer compiler seen) {path : Path} {live : FileStamp}
    (found : FileStamp.read workspace.files path = .ok (some live)) {entry : Store.Entry Template}
    (held : workspace.artifacts.templates.find? path.key = some entry) (same : entry.digest = live.digest) :
    Alike (Option.map Template.keyed) (.ok (some entry.value)) (templateOf compiler workspace.files path) := by
  obtain ⟨content, read, -, digest⟩ := FileStamp.read_live found
  obtain ⟨before, source, known, text, made, named, stamped, origin⟩ := genuine.templates path.key entry held
  have unchanged : before = content :=
    apart before content known (genuine.files path content read) (origin.symm.trans (same.trans digest))
  subst unchanged
  have alike := pure source named
  have readable : workspace.files.readText path = .ok source := Files.readText_eq_ok.mpr ⟨before, read, text⟩
  have sourced : entry.value.sourceDigest = Digest.ofText source := by
    rw [stamped, origin, Digest.ofText_of_fromUTF8 text]
  rw [made] at alike
  simp only [templateOf, readable]
  cases expected : compiler path source with
  | error error =>
    rw [expected] at alike
    cases alike
  | ok other =>
    rw [expected] at alike
    obtain rfl : entry.value.compiled = other := by simpa using alike
    simp [Alike, Except.map, Template.keyed, named, ← sourced]

/-- The template of a file does not depend on the stores. -/
theorem template_answers (pure : compiler.Pure) (apart : Apart seen)
    (genuine : workspace.Genuine project.analyzer compiler seen) (now : Timestamp) (path : Path) :
    Answers project compiler seen (Option.map Template.keyed) workspace (templateBy compiler now path workspace)
      (templateOf compiler workspace.files path) := by
  have narrows := Artifacts.Narrows.getTemplate workspace.artifacts workspace.files now path
  have kept : Workspace.Genuine project.analyzer compiler seen
      { workspace with artifacts := (workspace.artifacts.getTemplate workspace.files now path).2 } :=
    genuine.narrow narrows rfl
  have missed (free : (workspace.artifacts.getTemplate workspace.files now path).1 = .ok none) :
      Answers project compiler seen (Option.map Template.keyed) workspace (templateBy compiler now path workspace)
        (templateOf compiler workspace.files path) := by
    simp only [templateBy, lookupTemplate, free]
    obtain ⟨alike, files, genuine⟩ := compile_answers kept now path
    exact ⟨alike, files, genuine⟩
  cases live : FileStamp.read workspace.files path with
  | error error =>
    simp only [templateBy, lookupTemplate, Artifacts.getTemplate_of_error live]
    obtain ⟨fault, rfl, known, unreadable⟩ := FileStamp.read_error live
    refine ⟨?_, rfl, kept⟩
    simp [templateOf, unreadable, known, Alike]
  | ok found =>
    cases found with
    | none => exact missed (Artifacts.getTemplate_of_missing live)
    | some stamp =>
      rcases Artifacts.getTemplate_of_live live with free | ⟨entry, held, same, served⟩
      · exact missed free
      · simp only [templateBy, lookupTemplate, served]
        exact ⟨served_template_alike pure apart genuine live held same, rfl, kept⟩

/-! ### Documents -/

def analysesOf (project : Project) (files : Files) : List Path → Except Error (List Analysis)
  | [] => .ok []
  | path :: rest =>
    match project.analysisOf files path with
    | .error error => .error error
    | .ok found => (project.analysesOf files rest).map (found.toList ++ ·)

def sectionTemplateOf (project : Project) (compiler : Compiler) (files : Files) (part : Section) :
    Except Error (Option Template) :=
  match part.template with
  | none => .ok none
  | some name => templateOf compiler files (project.resolve name)

def documentOf (project : Project) (compiler : Compiler) (files : Files) (part : Section) :
    Except Error Document :=
  match project.analysesOf files (part.files.toList.map project.resolve) with
  | .error error => .error error
  | .ok analyses =>
    match project.sectionTemplateOf compiler files part with
    | .error error => .error error
    | .ok template => (project.markdown.section? part analyses template).mapError .render

theorem Alike.error {α : Type} {keyed : α → α} {error : Error} {other : Except Error α}
    (alike : Alike keyed (.error error) other) : ∃ same, other = .error same ∧ error.keyed = same.keyed := by
  cases other with
  | error same => exact ⟨same, rfl, by simpa [Alike, Except.map] using alike⟩
  | ok value => cases alike

theorem Alike.ok {α : Type} {keyed : α → α} {value : α} {other : Except Error α}
    (alike : Alike keyed (.ok value) other) : ∃ same, other = .ok same ∧ keyed value = keyed same := by
  cases other with
  | error error => cases alike
  | ok same => exact ⟨same, rfl, by simpa [Alike, Except.map] using alike⟩

theorem Alike.cons {shown : Analysis → Analysis} {first second : Except Error (Option Analysis)}
    {rest more : Except Error (List Analysis)} (here : Alike (Option.map shown) first second)
    (later : Alike (List.map shown) rest more) :
    Alike (List.map shown) (first.bind fun found => rest.map (found.toList ++ ·))
      (second.bind fun found => more.map (found.toList ++ ·)) := by
  cases first with
  | error error =>
    obtain ⟨same, shape, keyed⟩ := here.error
    rw [shape]
    exact congrArg Except.error keyed
  | ok found =>
    obtain ⟨same, shape, keyed⟩ := here.ok
    have head : found.toList.map shown = same.toList.map shown := by
      rw [← Option.toList_map, keyed, Option.toList_map]
    rw [shape]
    cases rest with
    | error error =>
      obtain ⟨other, shape, keyed⟩ := later.error
      rw [shape]
      exact congrArg Except.error keyed
    | ok analyses =>
      obtain ⟨others, shape, tail⟩ := later.ok
      rw [shape]
      simp [Alike, Except.map, Except.bind, head, tail]

theorem analysesOf_cons (project : Project) (files : Files) (path : Path) (rest : List Path) :
    project.analysesOf files (path :: rest) =
      (project.analysisOf files path).bind fun found => (project.analysesOf files rest).map (found.toList ++ ·) := by
  rw [analysesOf]
  cases project.analysisOf files path <;> rfl

theorem analyses_answers (pure : project.analyzer.Pure) (apart : Apart seen)
    (genuine : workspace.Genuine project.analyzer compiler seen) (now : Timestamp) (paths : List Path) :
    Answers project compiler seen (List.map Analysis.keyed) workspace (project.analyses now paths workspace)
      (project.analysesOf workspace.files paths) := by
  induction paths generalizing workspace with
  | nil => exact ⟨rfl, rfl, genuine⟩
  | cons path rest ih =>
    obtain ⟨alike, files, kept⟩ := analysis_answers pure apart genuine now path
    rw [analysesOf_cons]
    rcases result : project.analysis now path workspace with ⟨answer, after⟩
    rw [result] at alike files kept
    simp only [analyses, result]
    obtain ⟨others, later, genuine⟩ := ih kept
    rw [files] at others later
    have whole := alike.cons others
    cases answer with
    | error error => exact ⟨whole, files, kept⟩
    | ok found => exact ⟨whole, later, genuine⟩

private theorem sectionTemplate_answers (pure : compiler.Pure) (apart : Apart seen)
    (genuine : workspace.Genuine project.analyzer compiler seen) (now : Timestamp) (part : Section) :
    Answers project compiler seen (Option.map Template.keyed) workspace
      (project.sectionTemplate compiler now part workspace)
      (project.sectionTemplateOf compiler workspace.files part) := by
  simp only [sectionTemplate, sectionTemplateOf]
  cases part.template with
  | none => exact ⟨rfl, rfl, genuine⟩
  | some name => exact template_answers pure apart genuine now (project.resolve name)

/-- A document shows the keys of files, and nothing of how their paths are spelled. -/
theorem body_congr {first second : List Analysis}
    (same : first.map Analysis.keyed = second.map Analysis.keyed) : Markdown.body first = Markdown.body second := by
  have shown (analyses : List Analysis) :
      (analyses.map fun analysis => "### `" ++ analysis.path.key ++ "`\n\n" ++ Markdown.codeBlock analysis.result) =
        (analyses.map Analysis.keyed).map fun analysis =>
          "### `" ++ analysis.path.text ++ "`\n\n" ++ Markdown.codeBlock analysis.result := by
    simp [Analysis.keyed]
  simp only [Markdown.body, shown, same]

private theorem section?_congr (markdown : Markdown) (part : Section) {first second : List Analysis}
    {one two : Option Template} (same : first.map Analysis.keyed = second.map Analysis.keyed)
    (alike : one.map Template.keyed = two.map Template.keyed) :
    markdown.section? part first one = markdown.section? part second two := by
  have body := body_congr same
  cases one with
  | none =>
    cases two with
    | none => simp only [Markdown.section?, body]
    | some template => cases alike
  | some template =>
    cases two with
    | none => cases alike
    | some other =>
      have keyed : template.keyed = other.keyed := Option.some.inj alike
      have compiled : template.compiled = other.compiled := congrArg (fun shown => shown.compiled) keyed
      simp only [Markdown.section?, body, compiled]

/-- The document of a section does not depend on the stores. -/
theorem renderSection_answers (analyzes : project.analyzer.Pure) (compiles : compiler.Pure) (apart : Apart seen)
    (genuine : workspace.Genuine project.analyzer compiler seen) (now : Timestamp) (part : Section) :
    Answers project compiler seen id workspace (project.renderSectionBy compiler now part workspace)
      (project.documentOf compiler workspace.files part) := by
  obtain ⟨alike, files, kept⟩ := analyses_answers analyzes apart genuine now (part.files.toList.map project.resolve)
  rcases result : project.analyses now (part.files.toList.map project.resolve) workspace with ⟨answer, after⟩
  rw [result] at alike files kept
  simp only [renderSectionBy, result, documentOf]
  cases answer with
  | error error =>
    obtain ⟨same, shape, keyed⟩ := alike.error
    rw [shape]
    exact ⟨congrArg Except.error keyed, files, kept⟩
  | ok analyses =>
    obtain ⟨same, shape, keyed⟩ := alike.ok
    obtain ⟨templates, later, genuine⟩ := sectionTemplate_answers compiles apart kept now part
    rw [shape]
    rw [files] at templates later
    rcases compiled : project.sectionTemplate compiler now part after with ⟨template, last⟩
    rw [compiled] at templates later genuine
    simp only [compiled]
    cases template with
    | error error =>
      obtain ⟨other, shape, keyed⟩ := templates.error
      rw [shape]
      exact ⟨congrArg Except.error keyed, later, genuine⟩
    | ok template =>
      obtain ⟨other, shape, alike⟩ := templates.ok
      rw [shape]
      refine ⟨?_, later, genuine⟩
      dsimp only
      rw [section?_congr project.markdown part keyed alike]
      rfl

end

end Project
end FreshDocs
