import FreshDocs.Toml.Scalar
import FreshDocs.Toml.Tree
/-!
Reading configuration text: lines with a key and a value, headers of tables, comments. The whole
becomes structured data.
-/

namespace FreshDocs.Toml

/-- Deeper than this nothing is nested, and no dotted key has as many parts. -/
def depthLimit : Nat := 80

/-- The rest after a comment, if there is one. -/
def skipComment? (text : List Char) : Option (List Char) :=
  match text with
  | '#' :: rest =>
    let comment := rest.takeWhile fun c => c ≠ '\n' && c ≠ '\r'
    if comment.all isPlain then some (rest.drop comment.length) else none
  | _ => some text

/-- The rest after blanks, line ends and comments; each round takes at least one character. -/
def skipLines? : (fuel : Nat) → List Char → Option (List Char)
  | 0, text => some text
  | fuel + 1, text => do
    let rest ← skipComment? (skipSpace text)
    match newline? rest with
    | some rest => skipLines? fuel rest
    | none => some rest

def isBare (c : Char) : Bool :=
  c.isAlphanum || c = '_' || c = '-'

def simpleKey? (text : List Char) : Option (String × List Char) :=
  let bare := text.takeWhile isBare
  if bare.isEmpty then quoted? text else some (String.ofList bare, text.drop bare.length)

/-- A key with its parts between dots; blanks around each do not count. -/
def key? : (fuel : Nat) → Read (List String)
  | 0, _ => none
  | fuel + 1, text => do
    let (name, rest) ← simpleKey? (skipSpace text)
    match skipSpace rest with
    | '.' :: rest =>
      let (names, rest) ← key? fuel rest
      return (name :: names, rest)
    | rest => return ([name], rest)

def dottedKey? (text : List Char) : Option (List String × List Char) :=
  key? (depthLimit - 1) text

def pair? (value? : Read Json) (text : List Char) :
    Option ((List String × Json) × List Char) := do
  let (keys, rest) ← dottedKey? text
  let (value, rest) ← value? (skipSpace (← after? "=" rest))
  return ((keys, value), rest)

/-- The items of a list up to its bracket; a comma may follow the last one. -/
def items? (value? : Read Json) : (fuel : Nat) → Read (List Json)
  | 0, _ => none
  | fuel + 1, text => do
    match ← skipLines? text.length text with
    | ']' :: rest => some ([], rest)
    | text =>
      let (first, rest) ← value? text
      match ← skipLines? rest.length rest with
      | ',' :: rest =>
        let (others, rest) ← items? value? fuel rest
        return (first :: others, rest)
      | ']' :: rest => some ([first], rest)
      | _ => none

/-- The pairs of a table in braces after the first one. -/
def pairs? (value? : Read Json) : (fuel : Nat) → Entries → Read Entries
  | 0, _, _ => none
  | fuel + 1, entries, text => do
    let ((keys, value), rest) ← pair? value? text
    let entries ← Tree.insert value keys entries
    match skipSpace rest with
    | ',' :: rest => pairs? value? fuel entries rest
    | '\x7d' :: rest => some (entries, rest)
    | _ => none

def inlineTable? (value? : Read Json) (text : List Char) : Option (Json × List Char) :=
  match skipSpace text with
  | '\x7d' :: rest => some (.object [], rest)
  | text => (pairs? value? text.length [] text).map fun (entries, rest) =>
      (.object (Tree.membersToJson entries), rest)

/-- A value. `depth` is one more than the number of lists and tables it may still open. -/
def value? : (depth : Nat) → Read Json
  | 0, _ => none
  | depth + 1, text =>
    match text with
    | [] => none
    | c :: rest =>
      if c = '"' ∨ c = '\'' then (string? text).map fun (text, rest) => (.string text, rest)
      else if c = '[' then
        if depth = 0 then none
        else (items? (value? depth) (rest.length + 1) rest).map fun (items, rest) =>
          (.array items, rest)
      else if c = '\x7b' then if depth = 0 then none else inlineTable? (value? depth) rest
      else
        ((after? "true" text).map (.bool true, ·)) <|> ((after? "false" text).map (.bool false, ·))
          <|> number? text

/-- The rest after the end of a line, where only blanks and a comment may stand. -/
def lineEnd? (text : List Char) : Option (List Char) := do
  let rest ← skipComment? (skipSpace text)
  if rest.isEmpty then some [] else newline? rest

/-- What has been read of a document: its tables, and the way to the one that is open. -/
structure Document where
  entries : Entries := []
  way : List String := []

namespace Document

/-- A header with so many brackets around its key. -/
def header? (add : String → Entries → Option Entries) (closing : String) (document : Document)
    (text : List Char) : Option (Document × List Char) := do
  let (way, rest) ← dottedKey? text
  let rest ← lineEnd? (← after? closing rest)
  let entries ← Tree.changeAt (add (way.getLastD "")) way.dropLast document.entries
  return ({ entries, way }, rest)

def line? (document : Document) (text : List Char) : Option (Document × List Char) :=
  match skipSpace text with
  | '[' :: '[' :: rest => header? Tree.addTable "]]" document rest
  | '[' :: rest => header? Tree.openTable "]" document rest
  | text => do
    let ((keys, value), rest) ← pair? (value? depthLimit) text
    let rest ← lineEnd? rest
    let entries ← Tree.changeAt (Tree.insert value keys) document.way document.entries
    return ({ document with entries }, rest)

def lines? : (fuel : Nat) → Document → List Char → Option Document
  | 0, document, _ => some document
  | fuel + 1, document, text => do
    match ← skipLines? text.length text with
    | [] => some document
    | text =>
      let (document, rest) ← document.line? text
      lines? fuel document rest

end Document

/-- Reads a whole text; a byte order mark in front does not count. -/
def parse? (text : String) : Option Json := do
  let chars :=
    match text.toList with
    | '\ufeff' :: rest => rest
    | chars => chars
  let document ← Document.lines? (chars.length + 1) {} chars
  return .object (Tree.membersToJson document.entries)

end FreshDocs.Toml
