import FreshDocs.Artifacts.Snapshots
import FreshDocs.Sections.Basic
import FreshDocs.Text.Blank
import FreshDocs.Text.Replace
/-!
Documents in Markdown, published under one directory: one for each section, with the results of
its files as code blocks, and one for the project. A template has placeholders for a title and a
content, in double braces.
-/

namespace FreshDocs

/-- A document ready to be published. -/
structure Document where
  path : String
  content : String
  deriving DecidableEq

instance : ToJson Document where
  toJson document := .object
    [("path", toJson document.path), ("content", toJson document.content)]

inductive RenderError where
  | missingTemplate (id : String)
  | unbalanced (path : Path)
  /-- Any other reason, in the words of whoever renders. -/
  | failed (words : String)
  deriving DecidableEq

def RenderError.message : RenderError → String
  | .missingTemplate id => s!"missing template: {id}"
  | .unbalanced path => s!"unbalanced placeholder in {path.text}"
  | .failed words => words

def RenderError.kind : RenderError → String
  | .missingTemplate _ => "MissingTemplate"
  | .unbalanced _ | .failed _ => "Failed"

instance : ToJson RenderError := ⟨fun error => Json.failure error.kind error.message⟩

/-- What brings the text of a template into the form that sections are rendered with. -/
abbrev Compiler := Path → String → Except RenderError String

/-- A writer of documents under a directory. -/
structure Markdown where
  directory : String := "docs"
  deriving DecidableEq

namespace Markdown

def documentPath (markdown : Markdown) (name : String) : String :=
  let directory := (markdown.directory.toList.reverse.dropWhile (· = '/')).reverse
  String.ofList directory ++ "/" ++ name ++ ".md"

def openBraces : String := "\x7b\x7b"
def closeBraces : String := "\x7d\x7d"

/-- A template stays as it is. It has as many opening as closing braces. -/
def compile : Compiler := fun path source =>
  if Text.count openBraces source = Text.count closeBraces source then .ok source
  else .error (.unbalanced path)

def codeBlock (value : Json) : String :=
  "```json\n" ++ value.pretty ++ "\n```\n\n"

def body (analyses : List Analysis) : String :=
  let blocks := analyses.map fun analysis =>
    "### `" ++ analysis.path.key ++ "`\n\n" ++ codeBlock analysis.result
  String.ofList (Text.trimEnd (String.join blocks).toList)

/-- Fills in the title, and in the text so obtained the content. -/
def fill (template title content : String) : String :=
  let titled := Text.replace (openBraces ++ "title" ++ closeBraces) title template
  Text.replace (openBraces ++ "content" ++ closeBraces) content titled

def section? (markdown : Markdown) (part : Section) (analyses : List Analysis)
    (template : Option Template) : Except RenderError Document :=
  let path := markdown.documentPath part.id
  match template, part.template with
  | some template, _ => .ok { path, content := fill template.compiled part.id (body analyses) }
  | none, some missing => .error (.missingTemplate missing)
  | none, none => .ok { path, content := "## " ++ part.id ++ "\n\n" ++ body analyses ++ "\n" }

def overview (markdown : Markdown) (snapshot : Snapshot) : Document :=
  { path := markdown.documentPath "index"
    content := "# Project `" ++ snapshot.project.key ++ "`\n\n" ++ codeBlock snapshot.aggregate ++
      toString snapshot.manifest.size ++ " files tracked, updated " ++
      snapshot.updatedAt.toOffsetText ++ "\n" }

end Markdown
end FreshDocs
