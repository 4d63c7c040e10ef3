/-!
Structured data. Objects keep their members in the order in which they were given and may name
one twice; the canonical form of a value sorts members by name, and of two with one name keeps
the later.
-/

namespace FreshDocs

inductive Json where
  | null
  | bool (value : Bool)
  /-- A whole number. -/
  | integer (value : Int)
  /-- Any other number. -/
  | real (value : Float)
  | string (text : String)
  | array (items : List Json)
  | object (members : List (String × Json))

instance : Inhabited Json := ⟨.null⟩

/-- What can be written as structured data. -/
class ToJson (α : Type) where
  toJson : α → Json

export ToJson (toJson)

namespace Json

instance : ToJson Json := ⟨id⟩
instance : ToJson Unit := ⟨fun _ => .null⟩
instance : ToJson Bool := ⟨.bool⟩
instance : ToJson Nat := ⟨fun n => .integer n⟩
instance : ToJson Float := ⟨.real⟩
instance : ToJson String := ⟨.string⟩

instance {α : Type} [ToJson α] : ToJson (Option α) where
  toJson
    | none => .null
    | some value => toJson value

instance {α : Type} [ToJson α] : ToJson (List α) where
  toJson items := .array (items.map toJson)

/-- The value under a name, the last one if there are several. -/
def member? (name : String) : Json → Option Json
  | .object members => (members.reverse.find? (·.1 = name)).map (·.2)
  | _ => none

/-- The value under a name, absent where there is none. -/
def memberD (value : Json) (name : String) : Json :=
  (value.member? name).getD .null

def string? : Json → Option String
  | .string text => some text
  | _ => none

def bool? : Json → Option Bool
  | .bool value => some value
  | _ => none

/-- A whole number that is not negative. -/
def natural? : Json → Option Nat
  | .integer value => if 0 ≤ value then some value.toNat else none
  | _ => none

def integer? : Json → Option Int
  | .integer value => some value
  | _ => none

/-- Any number, a whole one included. -/
def real? : Json → Option Float
  | .real value => some value
  | .integer value => some (Float.ofInt value)
  | _ => none

def items? : Json → Option (List Json)
  | .array items => some items
  | _ => none

def isNull : Json → Bool
  | .null => true
  | _ => false

/-- Adds a member at its place among sorted ones, or replaces the one of its name. -/
def insertMember (name : String) (value : Json) : List (String × Json) → List (String × Json)
  | [] => [(name, value)]
  | (other, old) :: rest =>
    if name < other then (name, value) :: (other, old) :: rest
    else if name = other then (name, value) :: rest
    else (other, old) :: insertMember name value rest

mutual

/-- The canonical form of a value. -/
def canonical : Json → Json
  | .array items => .array (canonicalItems items)
  | .object members => .object (canonicalMembers members [])
  | other => other

def canonicalItems : List Json → List Json
  | [] => []
  | item :: rest => item.canonical :: canonicalItems rest

/-- Adds members one after the other to those already in order. -/
def canonicalMembers : List (String × Json) → List (String × Json) → List (String × Json)
  | [], sorted => sorted
  | (name, value) :: rest, sorted =>
    canonicalMembers rest (insertMember name value.canonical sorted)

end

/-- A failure as it is reported: its kind, and what is said about it. -/
def failure (kind message : String) : Json :=
  .object [("error", .string kind), ("message", .string message)]

/-- What went well is reported as it is, and what failed as its error is. -/
instance {ε α : Type} [ToJson ε] [ToJson α] : ToJson (Except ε α) where
  toJson
    | .ok value => toJson value
    | .error error => toJson error

/-- An object without repeated names, in canonical order. -/
def record (members : List (String × Json)) : Json :=
  (Json.object members).canonical

end Json
end FreshDocs
