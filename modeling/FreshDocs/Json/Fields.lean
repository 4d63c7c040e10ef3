import FreshDocs.Json.Value
/-!
Records read from structured data. A record is an object, where unknown members are passed
over and a known one may stand only once, or the list of its fields in order, where the last
ones may be missing.
-/

namespace FreshDocs.Json

/-- What was given for a record, by field name. -/
structure Fields where
  given : List (String × Json)

namespace Fields

/-- The fields of an object: known names only, none of them twice. -/
def ofMembers? (names : List String) (members : List (String × Json)) : Option Fields :=
  let known := members.filter fun (name, _) => names.contains name
  if (known.map (·.1)).Nodup then some ⟨known⟩ else none

/-- Reads the fields called `names`. With `surplus`, a list may have more items than the record
has fields. -/
def read? (names : List String) (surplus : Bool) : Json → Option Fields
  | .object members => ofMembers? names members
  | .array items =>
    if surplus || items.length ≤ names.length then some ⟨names.zip items⟩ else none
  | _ => none

def find? (fields : Fields) (name : String) : Option Json :=
  (fields.given.find? (·.1 = name)).map (·.2)

/-- A field that must be there. -/
def get? {α : Type} (fields : Fields) (name : String) (read : Json → Option α) : Option α :=
  (fields.find? name).bind read

def getD? {α : Type} (fields : Fields) (name : String) (read : Json → Option α) (default : α) :
    Option α :=
  match fields.find? name with
  | none => some default
  | some value => read value

def optional? {α : Type} (fields : Fields) (name : String) (read : Json → Option α) :
    Option (Option α) :=
  match fields.find? name with
  | none | some .null => some none
  | some value => (read value).map some

end Fields

def list? {α : Type} (read : Json → Option α) : Json → Option (List α)
  | .array items => items.mapM read
  | _ => none

def members? {α : Type} (read : Json → Option α) : Json → Option (List (String × α))
  | .object members => members.mapM fun (name, value) => (read value).map (name, ·)
  | _ => none

/-- A choice among names, given as a text or as an object with that one member, null. -/
def choice? {α : Type} (choices : List (String × α)) : Json → Option α
  | .string text => (choices.find? (·.1 = text)).map (·.2)
  | .object [(text, .null)] => (choices.find? (·.1 = text)).map (·.2)
  | _ => none

end FreshDocs.Json
