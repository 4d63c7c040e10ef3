import FreshDocs.Proofs.ProjectAnswers
import FreshDocs.Proofs.SourceSpellings

/-! What a project answers does not depend on what has been stored and dropped before. Whatever
was asked and whatever happened to the files in between, an answer is the one that a project
without any stored results gives over the same files. -/

namespace FreshDocs.Project

inductive Request where
  | analysis (path : Path)
  | template (path : Path)
  | renderSection (part : Section)
  | snapshot (directory : Path)
  | invalidate (path : Path)
  | invalidateAll (paths : List Path)
  | remove (path : Path)
  | invalidateTemplate (path : Path)
  | invalidateTemplates (paths : List Path)
  | sweep
  | clear
  | invalidateSnapshot (directory : Path)
  | invalidateUncovered (keys : List String)
  | sweepSnapshots
  | clearSnapshots
  /-- Files are written, touched, moved or deleted. -/
  | alter (files : Files)

def Request.apply (project : Project) (compiler : Compiler) (now : Timestamp) (workspace : Workspace) :
    Request → Workspace
  | .analysis path => (project.analysis now path workspace).2
  | .template path => (templateBy compiler now path workspace).2
  | .renderSection part => (project.renderSectionBy compiler now part workspace).2
  | .snapshot directory => (project.snapshot now directory workspace).2
  | .invalidate path => { workspace with artifacts := (workspace.artifacts.invalidate path).2 }
  | .invalidateAll paths => { workspace with artifacts := (Artifacts.invalidateAll paths workspace.artifacts).2 }
  | .remove path => { workspace with artifacts := (workspace.artifacts.remove path).2 }
  | .invalidateTemplate path => { workspace with artifacts := (workspace.artifacts.invalidateTemplate path).2 }
  | .invalidateTemplates paths =>
    { workspace with artifacts := (Artifacts.invalidateTemplates paths workspace.artifacts).2 }
  | .sweep => { workspace with artifacts := (workspace.artifacts.sweep now).2 }
  | .clear => { workspace with artifacts := workspace.artifacts.clear }
  | .invalidateSnapshot directory =>
    { workspace with snapshots := (workspace.snapshots.invalidate directory).2 }
  | .invalidateUncovered keys =>
    { workspace with snapshots := (workspace.snapshots.invalidateUncovered now keys).2 }
  | .sweepSnapshots => { workspace with snapshots := (workspace.snapshots.sweep now).2 }
  | .clearSnapshots => { workspace with snapshots := workspace.snapshots.clear }
  | .alter files => { workspace with files }

def run (project : Project) (compiler : Compiler) (workspace : Workspace) :
    List (Timestamp × Request) → Workspace
  | [] => workspace
  | (now, request) :: rest => run project compiler (request.apply project compiler now workspace) rest

/-- A content that some file has before or after one of the requests. -/
def Seen (project : Project) (compiler : Compiler) (workspace : Workspace) (requests : List (Timestamp × Request))
    (content : ByteArray) : Prop :=
  ∃ before after path, requests = before ++ after ∧
    (run project compiler workspace before).files.read path = .ok content

section
variable {project : Project} {compiler : Compiler} {seen : ByteArray → Prop} {workspace : Workspace}

private theorem rebuild_genuine (pure : project.analyzer.Pure) (apart : Apart seen)
    (genuine : workspace.Genuine project.analyzer compiler seen) (now : Timestamp) (directory : Path) :
    (project.rebuild now directory workspace).2.Genuine project.analyzer compiler seen := by
  simp only [rebuild]
  cases project.sourceFiles workspace.files directory with
  | error error => exact genuine
  | ok paths =>
    have kept := (analyses_answers pure apart genuine now paths).genuine
    dsimp only
    rcases result : project.analyses now paths workspace with ⟨answer, after⟩
    rw [result] at kept
    cases answer with
    | error error => exact kept
    | ok analyses => exact kept.narrow (.refl _) rfl

private theorem snapshot_genuine (pure : project.analyzer.Pure) (apart : Apart seen)
    (genuine : workspace.Genuine project.analyzer compiler seen) (now : Timestamp) (directory : Path) :
    (project.snapshot now directory workspace).2.Genuine project.analyzer compiler seen := by
  simp only [snapshot]
  have kept : (lookupSnapshot now directory workspace).2.Genuine project.analyzer compiler seen :=
    genuine.narrow (.refl _) rfl
  rcases result : lookupSnapshot now directory workspace with ⟨answer, after⟩
  rw [result] at kept
  cases answer with
  | error error => exact kept
  | ok found =>
    cases found with
    | some snapshot => exact kept
    | none => exact rebuild_genuine pure apart kept now directory

theorem apply_genuine (analyzes : project.analyzer.Pure) (compiles : compiler.Pure) (apart : Apart seen)
    (genuine : workspace.Genuine project.analyzer compiler seen) (now : Timestamp) (request : Request)
    (covers : ∀ files, request = .alter files → ∀ path content, files.read path = .ok content → seen content) :
    (request.apply project compiler now workspace).Genuine project.analyzer compiler seen := by
  cases request with
  | analysis path => exact (analysis_answers analyzes apart genuine now path).genuine
  | template path => exact (template_answers compiles apart genuine now path).genuine
  | renderSection part => exact (renderSection_answers analyzes compiles apart genuine now part).genuine
  | snapshot directory => exact snapshot_genuine analyzes apart genuine now directory
  | invalidate path => exact genuine.narrow (.invalidate _ path) rfl
  | invalidateAll paths => exact genuine.narrow (.invalidateAll paths _) rfl
  | remove path => exact genuine.narrow (.remove _ path) rfl
  | invalidateTemplate path => exact genuine.narrow (.invalidateTemplate _ path) rfl
  | invalidateTemplates paths => exact genuine.narrow (.invalidateTemplates paths _) rfl
  | sweep => exact genuine.narrow (.sweep _ now) rfl
  | clear => exact genuine.narrow (.clear _) rfl
  | invalidateSnapshot | invalidateUncovered | sweepSnapshots | clearSnapshots =>
    exact genuine.narrow (.refl _) rfl
  | alter files => exact ⟨genuine.analyses, genuine.templates, covers files rfl⟩

/-- All contents that files are altered to are seen. -/
def Covers (seen : ByteArray → Prop) (requests : List (Timestamp × Request)) : Prop :=
  ∀ now files, (now, .alter files) ∈ requests → ∀ path content, files.read path = .ok content → seen content

theorem run_genuine (analyzes : project.analyzer.Pure) (compiles : compiler.Pure) (apart : Apart seen)
    (genuine : workspace.Genuine project.analyzer compiler seen) {requests : List (Timestamp × Request)}
    (covers : Covers seen requests) :
    (run project compiler workspace requests).Genuine project.analyzer compiler seen := by
  induction requests generalizing workspace with
  | nil => exact genuine
  | cons entry rest ih =>
    obtain ⟨now, request⟩ := entry
    apply ih
    · apply apply_genuine analyzes compiles apart genuine
      rintro files rfl
      exact covers now files List.mem_cons_self
    · exact fun now files member => covers now files (List.mem_cons_of_mem _ member)

theorem run_append (project : Project) (compiler : Compiler) (workspace : Workspace)
    (first second : List (Timestamp × Request)) :
    run project compiler workspace (first ++ second) =
      run project compiler (run project compiler workspace first) second := by
  induction first generalizing workspace with
  | nil => rfl
  | cons entry rest ih => exact ih _

private theorem covers_seen (project : Project) (compiler : Compiler) (workspace : Workspace)
    (requests : List (Timestamp × Request)) : Covers (Seen project compiler workspace requests) requests := by
  intro now files member path content read
  obtain ⟨before, after, rfl⟩ := List.append_of_mem member
  refine ⟨before ++ [(now, .alter files)], after, path, by simp, ?_⟩
  rw [run_append]
  exact read

/-- Only contents that the files have at first, or are altered to, are ever seen. -/
theorem Seen.covered (analyzes : project.analyzer.Pure) (compiles : compiler.Pure) (apart : Apart seen)
    (genuine : workspace.Genuine project.analyzer compiler seen) {requests : List (Timestamp × Request)}
    (covers : Covers seen requests) {content : ByteArray}
    (known : Seen project compiler workspace requests content) : seen content := by
  obtain ⟨before, after, path, rfl, read⟩ := known
  have earlier : Covers seen before := fun now files member =>
    covers now files (List.mem_append_left after member)
  exact (run_genuine analyzes compiles apart genuine earlier).files path content read

end

theorem genuine_ofFiles (analyzer : Analyzer) (compiler : Compiler) (seen : ByteArray → Prop) (files : Files)
    (limits : Artifacts.Limits) (snapshots : Store.Limits)
    (covers : ∀ path content, files.read path = .ok content → seen content) :
    (Workspace.ofFiles files limits snapshots).Genuine analyzer compiler seen := by
  refine ⟨?_, ?_, covers⟩
  all_goals
    intro key entry present
    simp [Workspace.ofFiles, Artifacts.empty, Store.empty, Store.find?] at present

/-- Whatever was asked of a project, dropped from its stores and done to its files before, each
answer is that of a project with empty stores over the same files. Limits and times make no
difference. -/
theorem run_answers_fresh (project : Project) (compiler : Compiler) (analyzes : project.analyzer.Pure)
    (compiles : compiler.Pure) (files : Files) (limits others : Artifacts.Limits) (snapshots more : Store.Limits)
    (requests : List (Timestamp × Request))
    (apart : Apart (Seen project compiler (.ofFiles files limits snapshots) requests)) (now later : Timestamp) :
    let warm := run project compiler (.ofFiles files limits snapshots) requests
    let cold := Workspace.ofFiles warm.files others more
    (∀ path, Alike (Option.map Analysis.keyed) (project.analysis now path warm).1 (project.analysis later path cold).1) ∧
      (∀ path, Alike (Option.map Template.keyed) (templateBy compiler now path warm).1
        (templateBy compiler later path cold).1) ∧
      ∀ part, Alike id (project.renderSectionBy compiler now part warm).1
        (project.renderSectionBy compiler later part cold).1 := by
  intro warm cold
  let seen := Seen project compiler (.ofFiles files limits snapshots) requests
  have first : (Workspace.ofFiles files limits snapshots).Genuine project.analyzer compiler seen :=
    genuine_ofFiles _ _ _ _ _ _ fun path content read => ⟨[], requests, path, rfl, read⟩
  have lived : warm.Genuine project.analyzer compiler seen :=
    run_genuine analyzes compiles apart first (covers_seen _ _ _ _)
  have bare : cold.Genuine project.analyzer compiler seen := genuine_ofFiles _ _ _ _ _ _ lived.files
  -- Both workspaces answer what the files alone determine.
  refine ⟨fun path => ?_, fun path => ?_, fun part => ?_⟩
  · exact (analysis_answers analyzes apart lived now path).alike.trans
      (analysis_answers analyzes apart bare later path).alike.symm
  · exact (template_answers compiles apart lived now path).alike.trans
      (template_answers compiles apart bare later path).alike.symm
  · exact (renderSection_answers analyzes compiles apart lived now part).alike.trans
      (renderSection_answers analyzes compiles apart bare later part).alike.symm

def single (name : String) (content : ByteArray) : Files :=
  { root := .directory [(name, .file content .epoch)], current := [] }

theorem single_read {name : String} {content found : ByteArray} {path : Path}
    (read : (single name content).read path = .ok found) : found = content := by
  have below : Files.Below (fun held => held = content) (single name content).root := by
    intro names held modified leads
    cases names with
    | nil => cases leads
    | cons first rest =>
      simp only [single, Node.at?, Node.entry?, List.find?_singleton] at leads
      split at leads
      · cases rest with
        | nil =>
          cases leads
          rfl
        | cons second others => cases leads
      · cases leads
  exact Files.read_below below read

def counted : Project where
  root := ⟨"/"⟩

/-- A file is asked for, edited and asked for again, each time under another spelling. -/
def edits : List (Timestamp × Request) :=
  [(.epoch, .analysis ⟨"/page.ts"⟩), (.epoch, .template ⟨"/./page.ts"⟩),
    (.epoch, .alter (single "page.ts" "new".toUTF8)), (.epoch, .analysis ⟨"//page.ts"⟩), (.epoch, .sweep)]

private theorem edits_apart :
    Apart (Seen counted Markdown.compile (.ofFiles (single "page.ts" "old".toUTF8) {} {}) edits) := by
  let seen : ByteArray → Prop := fun content => content = "old".toUTF8 ∨ content = "new".toUTF8
  have apart : Apart seen := by
    have distinct : Digest.ofBytes "old".toUTF8 ≠ Digest.ofBytes "new".toUTF8 := by decide +kernel
    rintro first second (rfl | rfl) (rfl | rfl) same
    · rfl
    · exact absurd same distinct
    · exact absurd same.symm distinct
    · rfl
  have covers : Covers seen edits := by
    intro now files member path content read
    simp only [edits, List.mem_cons, Prod.mk.injEq, Request.alter.injEq, reduceCtorEq, and_false, false_or,
      List.not_mem_nil, or_false] at member
    rw [member.2] at read
    exact .inr (single_read read)
  have genuine := genuine_ofFiles counted.analyzer Markdown.compile seen (single "page.ts" "old".toUTF8) {} {}
    fun path content read => .inl (single_read read)
  intro first second one two
  exact apart first second (one.covered Analyzer.stats_pure Markdown.compile_pure apart genuine covers)
    (two.covered Analyzer.stats_pure Markdown.compile_pure apart genuine covers)

/-- After an edit, an answer is made from the new content, not served from the stores. -/
theorem edited_answers_fresh :
    counted.analyzer.Pure ∧ Compiler.Pure Markdown.compile ∧
      Apart (Seen counted Markdown.compile (.ofFiles (single "page.ts" "old".toUTF8) {} {}) edits) ∧
      let warm := run counted Markdown.compile (.ofFiles (single "page.ts" "old".toUTF8) {} {}) edits
      let cold := Workspace.ofFiles warm.files {} {}
      (∀ path, Alike (Option.map Analysis.keyed) (counted.analysis .epoch path warm).1
          (counted.analysis .epoch path cold).1) ∧
        (∀ path, Alike (Option.map Template.keyed) (templateBy Markdown.compile .epoch path warm).1
          (templateBy Markdown.compile .epoch path cold).1) ∧
        ∀ part, Alike id (counted.renderSectionBy Markdown.compile .epoch part warm).1
          (counted.renderSectionBy Markdown.compile .epoch part cold).1 :=
  ⟨Analyzer.stats_pure, Markdown.compile_pure, edits_apart,
    run_answers_fresh counted Markdown.compile Analyzer.stats_pure Markdown.compile_pure
      (single "page.ts" "old".toUTF8) {} {} {} {} edits edits_apart .epoch .epoch⟩

end FreshDocs.Project
