import FreshDocs.Path.Basic
import FreshDocs.Text.Blank
import FreshDocs.Text.Word
/-!
Lines that take in another file: `import … 'x'`, `const x = require('x')`, `from .x import`,
`#include "x"` and `mod x;`. A target that names a file lexically becomes a dependency.
-/

namespace FreshDocs.Source

open FreshDocs.Text

def after? (word : String) (text : List Char) : Option (List Char) :=
  if word.toList.isPrefixOf text then some (text.drop word.length) else none

def blanks? (text : List Char) : Option (List Char) :=
  if text.head?.any isBlank then some (trimStart text) else none

def isQuote (c : Char) : Bool :=
  c = '\'' || c = '"'

/-- The text between two of `quotes`, which must not be empty, and the rest. -/
def quoted? (quotes : Char → Bool) : List Char → Option (List Char × List Char)
  | [] => none
  | c :: text =>
    let body := text.takeWhile (!quotes ·)
    match text.drop body.length with
    | _ :: rest => if quotes c && !body.isEmpty then some (body, rest) else none
    | [] => none

/-- Whether the text between `import` and a quote is blank, or names something and ends in
`from`. -/
def isClause (text : List Char) : Bool :=
  if text.all isBlank then !text.isEmpty
  else
    let names := trimEnd text
    let before := names.take (names.length - 4)
    names.length < text.length && names.drop (names.length - 4) = "from".toList &&
      2 ≤ before.length && before.head?.any isBlank && before.getLast?.any isBlank

/-- Reads `import 'x'` or `import … from 'x'`. -/
def importTarget? (line : List Char) : Option (List Char) := do
  let rest ← after? "import" line
  let clause := rest.takeWhile (!isQuote ·)
  if isClause clause then (quoted? isQuote (rest.drop clause.length)).map (·.1) else none

/-- Reads `const x = require('x')`, and the same with `let` or `var`. -/
def requireTarget? (line : List Char) : Option (List Char) := do
  let rest ← after? "const" line <|> after? "let" line <|> after? "var" line
  let rest ← blanks? rest
  let name := rest.takeWhile isWordChar
  if name.isEmpty then none
  let rest ← after? "=" (trimStart (rest.drop name.length))
  let rest ← after? "require(" (trimStart rest)
  let (target, rest) ← quoted? isQuote (trimStart rest)
  let _ ← after? ")" (trimStart rest)
  return target

/-- Reads `from .x import`. -/
def fromTarget? (line : List Char) : Option (List Char) := do
  let rest ← blanks? (← after? "from" line)
  let target := rest.takeWhile fun c => c = '.' || isWordChar c
  if target.head? ≠ some '.' then none
  let _ ← after? "import" (← blanks? (rest.drop target.length))
  return target

/-- Reads `#include "x"`. -/
def includeTarget? (line : List Char) : Option (List Char) := do
  let rest ← blanks? (← after? "#include" line)
  (quoted? (· = '"') rest).map (·.1)

/-- Reads `mod x;`. -/
def moduleTarget? (line : List Char) : Option (List Char) := do
  let rest ← blanks? (← after? "mod" line)
  let target := rest.takeWhile isWordChar
  if target.isEmpty then none
  let _ ← after? ";" (trimStart (rest.drop target.length))
  return target

/-- What a line takes in. No line has two of the forms. -/
def target? (line : List Char) : Option String :=
  let line := trimStart line
  (importTarget? line <|> requireTarget? line <|> fromTarget? line <|> includeTarget? line <|>
    moduleTarget? line).map String.ofList

/-- Whether a target names a file: one relative to the importing file, or a bare file name. -/
def namesFile (target : String) : Bool :=
  let chars := target.toList
  "./".toList.isPrefixOf chars || "../".toList.isPrefixOf chars ||
    (!chars.contains '/' && chars.contains '.' && chars.head? ≠ some '.')

/-- The key of the file that a target names, seen from the importing file. A target without an
extension takes that of the importing file. -/
def dependency? (source : Path) (target : String) : Option String :=
  if namesFile target then
    let resolved := ((source.parent?.getD ⟨""⟩).join ⟨target⟩).normalize
    match resolved.extension?, source.extension? with
    | none, some extension => some (resolved.withExtension extension).key
    | _, _ => some resolved.key
  else none

end FreshDocs.Source
