import FreshDocs.Project
import FreshDocs.Proofs.ArtifactContents
import FreshDocs.Proofs.FileContents

/-! Where stored results come from. A result that does not depend on anything but the content of a
file is as good as new for every file of this content, however long ago it was made and however
the path of the file was spelled then. -/

namespace FreshDocs

@[simp] theorem mapError_ok {α ε δ : Type} (change : ε → δ) (value : α) :
    (Except.ok value).mapError change = .ok value := rfl

@[simp] theorem mapError_error {α ε δ : Type} (change : ε → δ) (error : ε) :
    (Except.error error : Except ε α).mapError change = .error (change error) := rfl

/-! ### Answers up to the spelling of paths -/

def StoreError.keyed : StoreError → StoreError
  | .unreadable path fault => .unreadable ⟨path.key⟩ fault
  | .badDigest fault => .badDigest fault

def AnalysisError.keyed : AnalysisError → AnalysisError
  | .unsupported path => .unsupported ⟨path.key⟩
  | .unreadable path fault => .unreadable ⟨path.key⟩ fault
  | .failed path words => .failed ⟨path.key⟩ words

def RenderError.keyed : RenderError → RenderError
  | .unbalanced path => .unbalanced ⟨path.key⟩
  | error => error

def Analysis.keyed (analysis : Analysis) : Analysis :=
  { analysis with
    path := ⟨analysis.path.key⟩
    stamp := { analysis.stamp with path := ⟨analysis.stamp.path.key⟩ } }

def Template.keyed (template : Template) : Template :=
  { template with path := ⟨template.path.key⟩ }

namespace Project

def Error.keyed : Error → Error
  | .store error => .store error.keyed
  | .analysis error => .analysis error.keyed
  | .render error => .render error.keyed
  | .walk path fault => .walk ⟨path.key⟩ fault

/-- Two answers are the same but for the spelling of paths that have the same key. -/
def Alike {α : Type} (keyed : α → α) (first second : Except Error α) : Prop :=
  (first.map keyed).mapError Error.keyed = (second.map keyed).mapError Error.keyed

end Project

/-- What an analyzer makes of a file depends on the key of its path and on its content, and the analyzer
changes nothing but its own count. -/
structure Analyzer.Pure (analyzer : Analyzer) : Prop where
  supports : ∀ {first second : Path} {content : ByteArray} {early late : Files}, first.key = second.key →
    early.read first = .ok content → late.read second = .ok content →
      analyzer.supports first = analyzer.supports second
  analyze : ∀ {first second : Path} {content : ByteArray} {early late : Workspace} (now later : Timestamp),
    first.key = second.key → early.files.read first = .ok content → late.files.read second = .ok content →
      (analyzer.analyze now first early).1.mapError AnalysisError.keyed =
        (analyzer.analyze later second late).1.mapError AnalysisError.keyed
  quiet : ∀ now path workspace, ∃ analyzed,
    (analyzer.analyze now path workspace).2 = { workspace with analyzed }

/-- The compiled form of a template depends on the key of its path and on its text. -/
def Compiler.Pure (compiler : Compiler) : Prop :=
  ∀ {first second : Path} (source : String), first.key = second.key →
    (compiler first source).mapError RenderError.keyed = (compiler second source).mapError RenderError.keyed

theorem Markdown.compile_pure : Compiler.Pure Markdown.compile := by
  intro first second source same
  simp only [compile]
  split
  · rfl
  · simp [RenderError.keyed, same]

/-! ### Where stored results come from -/

section
variable (analyzer : Analyzer) (compiler : Compiler) (seen : ByteArray → Prop)

/-- An analysis that was made from one of the seen contents, and can be stored under the key and
the digest. -/
inductive Analysis.Made (key : String) (analysis : Analysis) (digest : Digest) : Prop where
  | intro (now : Timestamp) (path : Path) (workspace : Workspace) (content : ByteArray) (stamp : FileStamp)
      (finding : Finding) (supported : analyzer.supports path = true) (known : seen content)
      (read : workspace.files.read path = .ok content)
      (found : (analyzer.analyze now path workspace).1 = .ok finding)
      (shape : analysis = .ofStamp stamp finding.result finding.dependencies)
      (named : path.key = key) (spelled : stamp.path = path) (same : digest = Digest.ofBytes content)

inductive Template.Made (key : String) (template : Template) (digest : Digest) : Prop where
  | intro (content : ByteArray) (source : String) (known : seen content)
      (text : String.fromUTF8? content = some source)
      (made : compiler template.path source = .ok template.compiled) (named : template.path.key = key)
      (stamped : template.sourceDigest = digest) (same : digest = Digest.ofBytes content)

/-- All that is stored was made from seen contents, and all contents that the files have now are
seen. -/
structure Workspace.Genuine (workspace : Workspace) : Prop where
  analyses : ∀ key entry, workspace.artifacts.analyses.find? key = some entry →
    Analysis.Made analyzer seen key entry.value entry.digest
  templates : ∀ key entry, workspace.artifacts.templates.find? key = some entry →
    Template.Made compiler seen key entry.value entry.digest
  files : ∀ path content, workspace.files.read path = .ok content → seen content

end

section
variable {analyzer : Analyzer} {compiler : Compiler} {seen : ByteArray → Prop} {workspace : Workspace}

theorem Workspace.Genuine.narrow (genuine : workspace.Genuine analyzer compiler seen) {after : Workspace}
    (narrows : workspace.artifacts.Narrows after.artifacts) (same : after.files = workspace.files) :
    after.Genuine analyzer compiler seen := by
  refine ⟨?_, ?_, ?_⟩
  · intro key entry present
    obtain ⟨old, held, value, digest⟩ := narrows.analyses key entry present
    rw [← value, ← digest]
    exact genuine.analyses key old held
  · intro key entry present
    obtain ⟨old, held, value, digest⟩ := narrows.templates key entry present
    rw [← value, ← digest]
    exact genuine.templates key old held
  · rw [same]
    exact genuine.files

end

end FreshDocs
