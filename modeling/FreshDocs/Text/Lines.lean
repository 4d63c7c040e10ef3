import FreshDocs.Text.Split
import FreshDocs.Text.Word
/-!
A text cut into lines, and a line cut into words. A line feed ends a line, together with a
carriage return right before it; what follows the last line feed is a line if it is not empty.
-/

namespace FreshDocs.Text

/-- A line without the carriage return at its end. -/
def stripReturn (line : List Char) : List Char :=
  if line.getLast? = some '\r' then line.dropLast else line

def lines (text : List Char) : List (List Char) :=
  let parts := split '\n' text
  parts.dropLast.map stripReturn ++ (parts.getLast?.filter (· ≠ [])).toList

/-- The longest runs of word characters, in order. -/
def words (text : List Char) : List (List Char) :=
  let rec go (current : List Char) : List Char → List (List Char)
    | [] => if current.isEmpty then [] else [current.reverse]
    | c :: rest =>
      if isWordChar c then go (c :: current) rest
      else if current.isEmpty then go [] rest
      else current.reverse :: go [] rest
  go [] text

end FreshDocs.Text
