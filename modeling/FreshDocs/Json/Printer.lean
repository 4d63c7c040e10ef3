import FreshDocs.Json.Value
import FreshDocs.Decimal.Style
import FreshDocs.Text.Hex
/-!
Structured data as text: a compact form without blanks, which sizes and digests are taken of,
and a form indented by two spaces a level for readers.
-/

namespace FreshDocs.Json

/-- A character inside quotes. Only the quote, the backslash and controls are written
otherwise than as themselves. -/
def escape (c : Char) : List Char :=
  if c = '"' then ['\\', '"']
  else if c = '\\' then ['\\', '\\']
  else if c = '\n' then ['\\', 'n']
  else if c = '\r' then ['\\', 'r']
  else if c = '\t' then ['\\', 't']
  else if c.toNat = 8 then ['\\', 'b']
  else if c.toNat = 12 then ['\\', 'f']
  else if c.toNat < 32 then
    ['\\', 'u', '0', '0', Hex.digit (c.toNat / 16), Hex.digit (c.toNat % 16)]
  else [c]

def quoted (text : String) : List Char :=
  '"' :: text.toList.flatMap escape ++ ['"']

def integerText (value : Int) : List Char :=
  (if value < 0 then ['-'] else []) ++ Nat.toDigits 10 value.natAbs

def scalarText : Json → List Char
  | .null => "null".toList
  | .bool true => "true".toList
  | .bool false => "false".toList
  | .integer value => integerText value
  | .real value => (Decimal.Style.data.render value).toList
  | .string text => quoted text
  | _ => []

mutual

def compactChars : Json → List Char
  | .array items => '[' :: compactItems items ++ [']']
  | .object members => '\x7b' :: compactMembers members ++ ['\x7d']
  | scalar => scalarText scalar

def compactItems : List Json → List Char
  | [] => []
  | [item] => item.compactChars
  | item :: rest => item.compactChars ++ ',' :: compactItems rest

def compactMembers : List (String × Json) → List Char
  | [] => []
  | [(name, value)] => quoted name ++ ':' :: value.compactChars
  | (name, value) :: rest =>
    quoted name ++ ':' :: value.compactChars ++ ',' :: compactMembers rest

end

def compact (value : Json) : String :=
  String.ofList value.compactChars

/-- The number of bytes of the compact text, used as an estimate of a value's size. -/
def size (value : Json) : Nat :=
  value.compact.utf8ByteSize

def newline (level : Nat) : List Char :=
  '\n' :: List.replicate (2 * level) ' '

mutual

/-- The indented text of a value that starts at a nesting level. -/
def prettyChars (level : Nat) : Json → List Char
  | .array [] => ['[', ']']
  | .object [] => ['\x7b', '\x7d']
  | .array items => '[' :: prettyItems (level + 1) items ++ newline level ++ [']']
  | .object members => '\x7b' :: prettyMembers (level + 1) members ++ newline level ++ ['\x7d']
  | scalar => scalarText scalar

def prettyItems (level : Nat) : List Json → List Char
  | [] => []
  | [item] => newline level ++ prettyChars level item
  | item :: rest => newline level ++ prettyChars level item ++ ',' :: prettyItems level rest

def prettyMembers (level : Nat) : List (String × Json) → List Char
  | [] => []
  | [(name, value)] => newline level ++ quoted name ++ ':' :: ' ' :: prettyChars level value
  | (name, value) :: rest =>
    newline level ++ quoted name ++ ':' :: ' ' :: prettyChars level value ++
      ',' :: prettyMembers level rest

end

def pretty (value : Json) : String :=
  String.ofList (prettyChars 0 value)

end FreshDocs.Json
