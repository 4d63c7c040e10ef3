/-!
Occurrences of one text in another, counted or replaced from left to right; none overlaps the
one before it.
-/

namespace FreshDocs.Text

/-- The text with every occurrence of `pattern` replaced; the first `skip` characters belong to
an occurrence that was already dealt with. -/
def replaceFrom (pattern replacement : List Char) : (skip : Nat) → List Char → List Char
  | _, [] => []
  | skip + 1, _ :: rest => replaceFrom pattern replacement skip rest
  | 0, c :: rest =>
    if pattern.isPrefixOf (c :: rest) then
      replacement ++ replaceFrom pattern replacement (pattern.length - 1) rest
    else c :: replaceFrom pattern replacement 0 rest

def countFrom (pattern : List Char) : (skip : Nat) → List Char → Nat
  | _, [] => 0
  | skip + 1, _ :: rest => countFrom pattern skip rest
  | 0, c :: rest =>
    if pattern.isPrefixOf (c :: rest) then countFrom pattern (pattern.length - 1) rest + 1
    else countFrom pattern 0 rest

/-- `text` with every occurrence of `pattern`, which is not empty, replaced. -/
def replace (pattern replacement text : String) : String :=
  String.ofList (replaceFrom pattern.toList replacement.toList 0 text.toList)

/-- The number of occurrences of `pattern`, which is not empty, in `text`. -/
def count (pattern text : String) : Nat :=
  countFrom pattern.toList 0 text.toList

end FreshDocs.Text
