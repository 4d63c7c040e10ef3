import FreshDocs.Json.Value
import Std.Data.ExtTreeMap
/-!
Numbers by name, in ascending order of the names.
-/

namespace FreshDocs.Source

abbrev Tally := Std.ExtTreeMap String Nat

namespace Tally

def add (name : String) (count : Nat) (tally : Tally) : Tally :=
  tally.insert name (tally.getD name 0 + count)

def addAll (counts : List (String × Nat)) (tally : Tally) : Tally :=
  counts.foldl (fun tally (name, count) => add name count tally) tally

/-- How often each name stands in a list. -/
def ofNames (names : List String) : Tally :=
  addAll (names.map (·, 1)) ∅

end Tally

instance : ToJson Tally where
  toJson tally := .object (tally.toList.map fun (name, count) => (name, toJson count))

end FreshDocs.Source
