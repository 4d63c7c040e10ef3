import FreshDocs.Json.Value
/-!
Tables while a configuration text is read. A table may be opened by a header once, and is made
without one where a header or a dotted key leads through it. Dotted keys add only to tables that
dotted keys have made. A header in double brackets adds a table to a list; what follows goes
into the last one.
-/

namespace FreshDocs.Toml

/-- How a table came about. -/
inductive Origin where
  /-- By a header that leads through it. -/
  | passed
  /-- By a dotted key. -/
  | dotted
  /-- By a header of its own. -/
  | opened
  deriving DecidableEq

inductive Tree where
  /-- A value to which nothing can be added. -/
  | value (json : Json)
  | table (origin : Origin) (entries : List (String × Tree))
  /-- The tables of headers in double brackets, the last one first. -/
  | tables (items : List Tree)

abbrev Entries := List (String × Tree)

namespace Tree

/-- The entries with another tree under a name. -/
def setEntry (name : String) (tree : Tree) : Entries → Entries
  | [] => [(name, tree)]
  | (other, old) :: rest =>
    if other = name then (name, tree) :: rest else (other, old) :: setEntry name tree rest

/-- The entries at the end of a way through tables are changed; where there is a list of
tables, the way leads into the last one. Tables that are missing are made. -/
def changeAt (change : Entries → Option Entries) : (way : List String) → Entries → Option Entries
  | [], entries => change entries
  | name :: way, entries => do
    let tree ←
      match entries.lookup name with
      | none => (changeAt change way []).map (table .passed)
      | some (.table origin inner) => (changeAt change way inner).map (table origin)
      | some (.tables (.table origin inner :: others)) =>
        (changeAt change way inner).map fun inner => .tables (.table origin inner :: others)
      | some _ => none
    return setEntry name tree entries

/-- Opens a table by its header, unless it was opened or made by a dotted key before. -/
def openTable (name : String) (entries : Entries) : Option Entries :=
  match entries.lookup name with
  | none => some (setEntry name (.table .opened []) entries)
  | some (.table .passed inner) => some (setEntry name (.table .opened inner) entries)
  | some _ => none

def addTable (name : String) (entries : Entries) : Option Entries :=
  match entries.lookup name with
  | none => some (setEntry name (.tables [.table .opened []]) entries)
  | some (.tables items) => some (setEntry name (.tables (.table .opened [] :: items)) entries)
  | some _ => none

/-- Adds a value under a dotted key; the name must be free. -/
def insert (value : Json) : (keys : List String) → Entries → Option Entries
  | [], _ => none
  | [name], entries =>
    match entries.lookup name with
    | none => some (setEntry name (.value value) entries)
    | some _ => none
  | name :: keys, entries => do
    let tree ←
      match entries.lookup name with
      | none => (insert value keys []).map (table .dotted)
      | some (.table origin inner) =>
        if origin = .dotted ∨ (origin = .passed ∧ 1 < keys.length) then
          (insert value keys inner).map (table origin)
        else none
      | some (.tables (.table origin inner :: others)) =>
        if 1 < keys.length then
          (insert value keys inner).map fun inner => .tables (.table origin inner :: others)
        else none
      | some _ => none
    return setEntry name tree entries

mutual

def toJson : Tree → Json
  | .value json => json
  | .table _ entries => .object (membersToJson entries)
  | .tables items => .array (itemsToJson items).reverse

def membersToJson : List (String × Tree) → List (String × Json)
  | [] => []
  | (name, tree) :: rest => (name, tree.toJson) :: membersToJson rest

def itemsToJson : List Tree → List Json
  | [] => []
  | tree :: rest => tree.toJson :: itemsToJson rest

end

end Tree
end FreshDocs.Toml
