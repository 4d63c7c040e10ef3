import FreshDocs.Artifacts.Basic
import FreshDocs.Source.Imports
import FreshDocs.Source.Language
import FreshDocs.Source.Tally
import FreshDocs.Text.Lines
/-!
Figures of source files: lines, blank ones, comments, markers and imports; and what the figures
of several files add up to.
-/

namespace FreshDocs.Source

open FreshDocs.Text

structure Stats where
  language : String
  lines : Nat
  blank : Nat
  comments : Nat
  markers : Tally
  imports : List String

namespace Stats

/-- A line is a comment if it starts like one in some language. -/
def isComment (line : List Char) : Bool :=
  ["//", "#", "/*", "*", "--", "<!--", "\"\"\""].any fun opening => opening.toList.isPrefixOf line

def markerNames : List String := ["TODO", "FIXME", "XXX", "HACK"]

/-- The markers in a line: words of their own. -/
def markersOf (line : List Char) : List String :=
  ((words line).map String.ofList).filter markerNames.contains

/-- The figures of the file at `path` with this text. Only lines that are not blank count as
comments or hold anything. -/
def ofText (path : Path) (text : String) : Stats :=
  let all := Text.lines text.toList
  let filled := all.filter (trim · ≠ [])
  { language := (languageOf? path).getD unknownLanguage
    lines := all.length
    blank := all.length - filled.length
    comments := filled.countP (isComment <| trim ·)
    markers := Tally.ofNames (filled.flatMap (markersOf <| trim ·))
    imports := filled.filterMap target? }

def code (stats : Stats) : Nat :=
  let filled := stats.lines - stats.blank
  filled - min stats.comments filled

/-- The files that the file at `path` takes in. -/
def dependencies (path : Path) (stats : Stats) : List String :=
  stats.imports.filterMap (dependency? path)

instance : ToJson Stats where
  toJson stats := Json.record
    [("language", toJson stats.language), ("lines", toJson stats.lines),
     ("blank", toJson stats.blank), ("comments", toJson stats.comments),
     ("code", toJson stats.code), ("markers", toJson stats.markers),
     ("imports", toJson stats.imports)]

end Stats

/-- What the figures of the files of a project add up to. -/
structure Totals where
  files : Nat := 0
  lines : Nat := 0
  comments : Nat := 0
  languages : Tally := ∅
  markers : Tally := ∅

namespace Totals

/-- A number that a result has under a name; anything else counts as zero. -/
def numberOf (result : Json) (name : String) : Nat :=
  ((result.member? name).bind Json.natural?).getD 0

def languageOf (result : Json) : String :=
  ((result.member? "language").bind Json.string?).getD unknownLanguage

def markersOf (result : Json) : List (String × Nat) :=
  match result.member? "markers" with
  | some (.object members) => members.map fun (name, count) => (name, count.natural?.getD 0)
  | _ => []

/-- The totals with the result of one more file, whoever has made it. -/
def add (totals : Totals) (result : Json) : Totals :=
  { files := totals.files + 1
    lines := totals.lines + numberOf result "lines"
    comments := totals.comments + numberOf result "comments"
    languages := Tally.add (languageOf result) 1 totals.languages
    markers := Tally.addAll (markersOf result) totals.markers }

def ofResults (results : List Json) : Totals :=
  results.foldl add {}

/-- The aggregate of the project at `root`. -/
def aggregate (root : Path) (totals : Totals) : Json :=
  Json.record
    [("root", toJson root.key), ("files", toJson totals.files), ("lines", toJson totals.lines),
     ("comments", toJson totals.comments), ("languages", toJson totals.languages),
     ("markers", toJson totals.markers)]

end Totals
end FreshDocs.Source
