import FreshDocs.Proofs.FileContents
import FreshDocs.Proofs.ProjectSteps
import Mathlib.Data.List.Infix

/-! What the document of a section shows. Every file that is there and is supported has its analysis in it, and a
template that is there is found, as long as the analyzer takes no file for missing that is there. -/

namespace FreshDocs

/-! ### Texts in texts -/

namespace Text

variable {pattern replacement kept : List Char}

/-- Nothing that is left of one text as it starts later starts with the other, or starts it. -/
def Apart (first second : List Char) : Prop :=
  ∀ start < first.length, ¬ first.drop start <+: second ∧ ¬ second <+: first.drop start

instance (first second : List Char) : Decidable (Apart first second) :=
  inferInstanceAs (Decidable (∀ start < first.length, _))

private theorem replaceFrom_shows {text : List Char} (filled : pattern ≠ []) (occurs : pattern <:+: text) :
    replacement <:+: replaceFrom pattern replacement 0 text := by
  induction text with
  | nil => exact absurd (List.infix_nil.mp occurs) filled
  | cons c rest ih =>
    rw [replaceFrom]
    split
    · exact (List.prefix_append _ _).isInfix
    next elsewhere =>
      rcases List.infix_cons_iff.mp occurs with here | later
      · exact absurd (List.isPrefixOf_iff_prefix.mpr here) elsewhere
      · exact (ih later).trans (List.suffix_cons c _).isInfix

theorem replaceFrom_passes (inside : Apart kept pattern) (start : Nat) (rest : List Char) :
    replaceFrom pattern replacement 0 (kept.drop start ++ rest) =
      kept.drop start ++ replaceFrom pattern replacement 0 rest := by
  by_cases short : start < kept.length
  · have tail := replaceFrom_passes inside (start + 1) rest
    rw [List.drop_eq_getElem_cons short, List.cons_append, replaceFrom, if_neg, tail, List.cons_append]
    intro starts
    rw [List.isPrefixOf_iff_prefix, ← List.cons_append, ← List.drop_eq_getElem_cons short] at starts
    rcases List.prefix_or_prefix_of_prefix starts (List.prefix_append _ rest) with this | this
    · exact (inside start short).2 this
    · exact (inside start short).1 this
  · rw [List.drop_eq_nil_of_le (Nat.le_of_not_lt short), List.nil_append, List.nil_append]
termination_by kept.length - start

private theorem replaceFrom_keeps (before : Apart pattern kept) (inside : Apart kept pattern) (front rest : List Char) {skip : Nat}
    (skipped : skip ≤ front.length) : kept <:+: replaceFrom pattern replacement skip (front ++ kept ++ rest) := by
  induction front generalizing skip with
  | nil =>
    obtain rfl : skip = 0 := Nat.le_zero.mp skipped
    have passes := @replaceFrom_passes pattern replacement kept inside 0 rest
    rw [List.drop_zero] at passes
    rw [List.nil_append, passes]
    exact (List.prefix_append _ _).isInfix
  | cons c front ih =>
    simp only [List.cons_append]
    cases skip with
    | succ skip => exact ih (Nat.le_of_succ_le_succ skipped)
    | zero =>
      rw [replaceFrom]
      split
      next starts =>
        rw [List.isPrefixOf_iff_prefix] at starts
        refine List.IsInfix.trans (ih ?_) (List.suffix_append _ _).isInfix
        -- A pattern that starts in front of the kept text would have to overlap it to reach further.
        refine Nat.sub_le_of_le_add (Nat.le_of_not_lt fun reaches => ?_)
        have tail := starts.drop (c :: front).length
        rw [← List.cons_append, ← List.cons_append, List.append_assoc, List.drop_left] at tail
        rcases List.prefix_or_prefix_of_prefix tail (List.prefix_append kept rest) with short | long
        · exact (before _ reaches).1 short
        · exact (before _ reaches).2 long
      next => exact List.IsInfix.trans (ih (Nat.zero_le _)) (List.suffix_cons c _).isInfix

private theorem trimEnd_append (front : List Char) {last : Char} (firm : isBlank last = false) (rest : List Char) :
    front ++ [last] <+: trimEnd (front ++ [last] ++ rest) := by
  have stops : (front ++ [last]).reverse.dropWhile isBlank = (front ++ [last]).reverse := by
    simp [firm]
  have below : (front ++ [last]).reverse <:+ (front ++ [last] ++ rest).reverse.dropWhile isBlank := by
    have whole : (front ++ [last] ++ rest).reverse = rest.reverse ++ (front ++ [last]).reverse := List.reverse_append
    rw [whole, List.dropWhile_append, stops]
    split
    · exact List.suffix_refl _
    · exact List.suffix_append _ _
  rw [← List.reverse_prefix, List.reverse_reverse] at below
  exact below

end Text

/-! ### Results in documents -/

def Markdown.entry (analysis : Analysis) : String :=
  "### `" ++ analysis.path.key ++ "`\n\n```json\n" ++ analysis.result.pretty ++ "\n```"

theorem Markdown.body_shows {analyses : List Analysis} {analysis : Analysis} (member : analysis ∈ analyses) :
    (entry analysis).toList <:+: (body analyses).toList := by
  obtain ⟨before, later, rfl⟩ := List.append_of_mem member
  have block (analysis : Analysis) : ("### `" ++ analysis.path.key ++ "`\n\n" ++ codeBlock analysis.result).toList =
      (entry analysis).toList ++ ['\n', '\n'] := by
    simp [codeBlock, entry]
  obtain ⟨inner, ends⟩ : ∃ inner, (entry analysis).toList = inner ++ ['\x60'] :=
    ⟨("### `" ++ analysis.path.key ++ "`\n\n```json\n" ++ analysis.result.pretty ++ "\n``").toList, by simp [entry]⟩
  simp only [body, String.toList_ofList, String.toList_join, List.flatMap_map, block, List.flatMap_append,
    List.flatMap_cons]
  generalize before.flatMap _ = front
  generalize later.flatMap _ = rest
  rw [ends]
  have firm : Text.isBlank '\x60' = false := by decide
  have kept := Text.trimEnd_append (front ++ inner) firm (['\n', '\n'] ++ rest)
  simp only [List.append_assoc] at kept ⊢
  exact List.IsInfix.trans ⟨front, [], by simp⟩ kept.isInfix

/-- A template with a place for the content. -/
def Template.Places (template : Template) : Prop :=
  (Markdown.openBraces ++ "content" ++ Markdown.closeBraces).toList <:+: template.compiled.toList

private theorem Markdown.fill_shows {template : Template} (places : template.Places) (title content : String) :
    content.toList <:+: (fill template.compiled title content).toList := by
  let place := (openBraces ++ "content" ++ closeBraces).toList
  let other := (openBraces ++ "title" ++ closeBraces).toList
  obtain ⟨front, rest, shape⟩ := places
  have kept : place <:+: Text.replaceFrom other title.toList 0 template.compiled.toList := by
    rw [← shape]
    have before : Text.Apart other place := by decide
    have inside : Text.Apart place other := by decide
    exact Text.replaceFrom_keeps before inside front rest (Nat.zero_le _)
  simp only [fill, Text.replace, String.toList_ofList]
  exact Text.replaceFrom_shows (by decide) kept

private theorem Markdown.section_shows {markdown : Markdown} {part : Section} {analyses : List Analysis} {template : Option Template}
    {document : Document} {analysis : Analysis} (rendered : markdown.section? part analyses template = .ok document)
    (places : ∀ found ∈ template, found.Places) (member : analysis ∈ analyses) :
    (entry analysis).toList <:+: document.content.toList := by
  refine List.IsInfix.trans (body_shows member) ?_
  cases template with
  | some template =>
    cases rendered
    exact fill_shows (places template rfl) part.id (body analyses)
  | none =>
    cases named : part.template with
    | some missing => simp [section?, named] at rendered
    | none =>
      simp only [section?, named, Except.ok.injEq] at rendered
      subst rendered
      simp only [String.toList_append]
      exact ⟨_, _, rfl⟩

/-! ### Answers for files that are there -/

/-- An analyzer that changes no files, and takes no file for missing that is there. -/
structure Analyzer.Faithful (analyzer : Analyzer) : Prop where
  files : ∀ now path workspace, (analyzer.analyze now path workspace).2.files = workspace.files
  present : ∀ {now path workspace content error}, workspace.files.read path = .ok content →
    (analyzer.analyze now path workspace).1 = .error error → error.isNotFound = false

def Analyzer.AgreesAt (first second : Analyzer) (path : Path) : Prop :=
  first.supports path = second.supports path ∧ ∀ now workspace, first.analyze now path workspace = second.analyze now path workspace

theorem Analyzer.stats_faithful : Analyzer.stats.Faithful := by
  refine ⟨fun now path workspace => rfl, ?_⟩
  intro now path workspace content error read failed
  simp only [stats, readStats, Files.readText, read] at failed
  cases text : String.fromUTF8? content with
  | none =>
    simp only [text] at failed
    split at failed <;> cases failed <;> rfl
  | some text =>
    simp only [text] at failed
    split at failed <;> cases failed
    rfl

namespace Project

variable {project : Project} {now : Timestamp} {path : Path} {workspace : Workspace} {content : ByteArray}

/-- A file is there that the project can analyze. -/
structure Offers (project : Project) (files : Files) (path : Path) : Prop where
  present : ∃ content, files.read path = .ok content
  supported : project.analyzer.supports path = true

theorem Step.files {compiler : Compiler} (faithful : project.analyzer.Faithful) {before after : Workspace}
    (step : project.Step compiler now before after) : after.files = before.files := by
  cases step with
  | lookup | lookupTemplate | storeTemplate => rfl
  | analyze => exact faithful.files _ _ _
  | @store path _ after _ _ supported live found =>
    have kept := faithful.files now path before
    rwa [found] at kept

private theorem analyze_found (faithful : project.analyzer.Faithful) (read : workspace.files.read path = .ok content) :
    (project.analyze now path workspace).1 ≠ .ok none := by
  obtain ⟨stamp, live⟩ := FileStamp.read_of_read read
  have present {error : AnalysisError} := @faithful.present now path workspace content error read
  simp only [analyze, live]
  generalize project.analyzer.analyze now path workspace = result at present ⊢
  obtain ⟨answer, after⟩ := result
  cases answer with
  | error error =>
    dsimp only
    rw [present rfl, if_neg Bool.false_ne_true]
    simp
  | ok finding =>
    dsimp only
    split <;> simp

private theorem analysis_files (faithful : project.analyzer.Faithful) (now : Timestamp) (path : Path) (workspace : Workspace) :
    (project.analysis now path workspace).2.files = workspace.files :=
  (analysis_steps project Markdown.compile now path workspace).keeps fun _ _ step => step.files faithful

private theorem analysis_found (faithful : project.analyzer.Faithful) (offers : project.Offers workspace.files path) :
    (project.analysis now path workspace).1 ≠ .ok none := by
  obtain ⟨⟨content, read⟩, supported⟩ := offers
  simp only [analysis, lookup]
  generalize workspace.artifacts.get workspace.files now path = result
  obtain ⟨answer, artifacts⟩ := result
  rcases answer with error | _ | found
  · simp
  · simp only [supported, if_true]
    exact @analyze_found project now path { workspace with artifacts } content faithful read
  · simp

/-- The analysis that a project gives of a file when its turn comes. -/
def Gives (project : Project) (now : Timestamp) (paths : List Path) (workspace : Workspace) (path : Path)
    (analysis : Analysis) : Prop :=
  ∃ before later, paths = before ++ path :: later ∧
    (project.analysis now path (project.analyses now before workspace).2).1 = .ok (some analysis)

private theorem analyses_files (faithful : project.analyzer.Faithful) (now : Timestamp) (paths : List Path) (workspace : Workspace) :
    (project.analyses now paths workspace).2.files = workspace.files :=
  (analyses_steps project Markdown.compile now paths workspace).keeps fun _ _ step => step.files faithful

theorem Gives.later {first : Path} {after : Workspace} {answer : Option Analysis} {paths : List Path} {analysis : Analysis}
    (given : project.analysis now first workspace = (.ok answer, after)) (gives : project.Gives now paths after path analysis) :
    project.Gives now (first :: paths) workspace path analysis := by
  obtain ⟨before, later, rfl, turn⟩ := gives
  refine ⟨first :: before, later, rfl, ?_⟩
  simpa only [analyses, given] using turn

/-- No file that is there and can be analyzed is missing among the analyses. -/
theorem analyses_found (faithful : project.analyzer.Faithful) {paths : List Path} {analyses : List Analysis}
    (answered : (project.analyses now paths workspace).1 = .ok analyses) (member : path ∈ paths)
    (offers : project.Offers workspace.files path) :
    ∃ analysis ∈ analyses, project.Gives now paths workspace path analysis := by
  induction paths generalizing workspace analyses with
  | nil => cases member
  | cons first rest ih =>
    have same := analysis_files faithful now first workspace
    simp only [Project.analyses] at answered
    rcases given : project.analysis now first workspace with ⟨answer, after⟩
    rw [given] at same answered
    cases answer with
    | error error => cases answered
    | ok found =>
      cases others : (project.analyses now rest after).1 with
      | error error => simp [others, Except.map] at answered
      | ok later =>
        have shape : found.toList ++ later = analyses := by simpa [others, Except.map] using answered
        subst shape
        rcases List.mem_cons.mp member with here | there
        · subst here
          have known := @analysis_found project now path workspace faithful offers
          rw [given] at known
          cases found with
          | none => exact absurd rfl known
          | some analysis =>
            exact ⟨analysis, List.mem_append_left _ (by simp), [], rest, rfl, congrArg Prod.fst given⟩
        · obtain ⟨analysis, listed, gives⟩ := ih others there (by rwa [same])
          exact ⟨analysis, List.mem_append_right _ listed, gives.later given⟩

private theorem templateBy_found (compiler : Compiler) (read : workspace.files.read path = .ok content) :
    (templateBy compiler now path workspace).1 ≠ .ok none := by
  simp only [templateBy, lookupTemplate]
  generalize workspace.artifacts.getTemplate workspace.files now path = result
  obtain ⟨answer, artifacts⟩ := result
  rcases answer with error | _ | found
  · simp
  · simp only [compile, Files.readText, read]
    cases text : String.fromUTF8? content with
    | none => simp [Fault.isNotFound, Fault.notText]
    | some source =>
      dsimp only
      split
      · simp
      · split <;> simp
  · simp

/-! ### Rendering -/

private theorem analysis_of_agrees {analyzer : Analyzer} (agrees : analyzer.AgreesAt project.analyzer path) (now : Timestamp)
    (workspace : Workspace) : { project with analyzer }.analysis now path workspace = project.analysis now path workspace := by
  simp only [analysis, analyze, agrees.1, agrees.2]

private theorem analyses_of_agrees {analyzer : Analyzer} {paths : List Path}
    (agrees : ∀ path ∈ paths, analyzer.AgreesAt project.analyzer path) (now : Timestamp) (workspace : Workspace) :
    { project with analyzer }.analyses now paths workspace = project.analyses now paths workspace := by
  induction paths generalizing workspace with
  | nil => rfl
  | cons path rest ih =>
    obtain ⟨here, later⟩ := List.forall_mem_cons.mp agrees
    simp only [analyses, analysis_of_agrees here, ih later]

/-- A document is made with no more of the analyzer and the compiler than they make of the files and the template of
the section. -/
theorem renderSectionBy_of_agrees {part : Section} {analyzer : Analyzer} {compiler : Compiler}
    (files : ∀ path ∈ part.files.toList.map project.resolve, analyzer.AgreesAt project.analyzer path)
    (template : ∀ name ∈ part.template, compiler (project.resolve name) = Markdown.compile (project.resolve name))
    (now : Timestamp) (workspace : Workspace) :
    { project with analyzer }.renderSectionBy compiler now part workspace = project.renderSection now part workspace := by
  have same (workspace : Workspace) : { project with analyzer }.sectionTemplate compiler now part workspace =
      project.sectionTemplate Markdown.compile now part workspace := by
    simp only [sectionTemplate]
    split
    · rfl
    next name named =>
      simp only [resolve] at template ⊢
      simp only [templateBy, compile, template name named]
  simp only [renderSection, renderSectionBy, same]
  rw [← analyses_of_agrees files now workspace]
  rfl

private theorem analyses_unrendered {error : RenderError} (paths : List Path) (workspace : Workspace) :
    (project.analyses now paths workspace).1 ≠ .error (.render error) := by
  have single (path : Path) (workspace : Workspace) : (project.analysis now path workspace).1 ≠ .error (.render error) := by
    simp only [analysis, analyze]
    grind
  induction paths generalizing workspace with
  | nil => simp [analyses]
  | cons path rest ih =>
    simp only [analyses]
    have here := single path workspace
    generalize project.analysis now path workspace = result at here ⊢
    obtain ⟨answer, after⟩ := result
    cases answer with
    | error error => simpa using here
    | ok found =>
      have later := ih after
      cases others : (project.analyses now rest after).1 with
      | error error => simpa [others, Except.map] using later
      | ok analyses => simp [others, Except.map]

private theorem template_not_missing {id : String} (path : Path) (workspace : Workspace) :
    (template now path workspace).1 ≠ .error (.render (.missingTemplate id)) := by
  simp only [template, templateBy, compile, Markdown.compile]
  grind

section
variable {part : Section} (faithful : project.analyzer.Faithful)
include faithful

/-- Every file of a section that is there and can be analyzed is in its document, if the template leaves a place. -/
theorem renderSection_shows {document : Document} (rendered : (project.renderSection now part workspace).1 = .ok document)
    (member : path ∈ part.files.toList.map project.resolve) (offers : project.Offers workspace.files path)
    (places : ∀ name ∈ part.template, ∀ found,
      (template now (project.resolve name) (project.analyses now (part.files.toList.map project.resolve) workspace).2).1 =
        .ok (some found) → found.Places) :
    ∃ analysis, project.Gives now (part.files.toList.map project.resolve) workspace path analysis ∧
      (Markdown.entry analysis).toList <:+: document.content.toList := by
  simp only [renderSection, renderSectionBy] at rendered
  rcases answered : project.analyses now (part.files.toList.map project.resolve) workspace with ⟨answer, after⟩
  rw [answered] at rendered places
  cases answer with
  | error error => cases rendered
  | ok analyses =>
    obtain ⟨analysis, listed, gives⟩ := analyses_found faithful (congrArg Prod.fst answered) member offers
    refine ⟨analysis, gives, ?_⟩
    dsimp only at rendered
    rcases compiled : project.sectionTemplate Markdown.compile now part after with ⟨answer, last⟩
    rw [compiled] at rendered
    cases answer with
    | error error => cases rendered
    | ok used =>
      have filled : project.markdown.section? part analyses used = .ok document := by
        cases made : project.markdown.section? part analyses used with
        | error error => simp [made, Except.mapError] at rendered
        | ok made => simpa [made, Except.mapError] using rendered
      refine Markdown.section_shows filled ?_ listed
      intro found given
      cases named : part.template with
      | none =>
        simp only [sectionTemplate, named, Prod.mk.injEq, Except.ok.injEq] at compiled
        rw [← compiled.1] at given
        cases given
      | some name =>
        simp only [sectionTemplate, named] at compiled
        refine places name named found ?_
        rw [template, compiled, Option.mem_def.mp given]

theorem renderSection_finds {name : String} (named : part.template = some name)
    (read : workspace.files.read (project.resolve name) = .ok content) (id : String) :
    (project.renderSection now part workspace).1 ≠ .error (.render (.missingTemplate id)) := by
  intro failed
  simp only [renderSection, renderSectionBy, sectionTemplate, named] at failed
  rcases answered : project.analyses now (part.files.toList.map project.resolve) workspace with ⟨answer, after⟩
  rw [answered] at failed
  cases answer with
  | error error =>
    obtain rfl := Except.error.inj failed
    exact analyses_unrendered _ workspace (congrArg Prod.fst answered)
  | ok analyses =>
    have kept : after.files = workspace.files :=
      (congrArg (·.2.files) answered).symm.trans (analyses_files faithful now _ workspace)
    have found := @templateBy_found now (project.resolve name) after content Markdown.compile (by rwa [kept])
    have other := @template_not_missing now id (project.resolve name) after
    rw [template] at other
    dsimp only at failed
    generalize templateBy Markdown.compile now (project.resolve name) after = result at found other failed
    obtain ⟨answer, last⟩ := result
    rcases answer with error | _ | used
    · exact other (congrArg Except.error (Except.error.inj failed))
    · exact found rfl
    · cases failed

end

end Project
end FreshDocs
