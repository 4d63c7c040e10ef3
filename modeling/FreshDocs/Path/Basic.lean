import FreshDocs.Text.Split
/-!
Paths as they are spelled. A path is read as a list of components: repeated and trailing
slashes say nothing, and neither does a `.` anywhere but at the start.
-/

namespace FreshDocs

/-- A path in the spelling of whoever gave it. -/
structure Path where
  text : String
  deriving DecidableEq

namespace Path

inductive Component where
  | root
  | here
  | up
  | name (text : String)
  deriving DecidableEq

namespace Component

def ofPart (part : List Char) : Component :=
  if part = ['.'] then .here
  else if part = ['.', '.'] then .up
  else .name (String.ofList part)

def toText : Component → String
  | .root => "/"
  | .here => "."
  | .up => ".."
  | .name text => text

/-- The root comes first, names last and among themselves in the order of their texts. -/
def rank : Component → Nat × String
  | .root => (0, "")
  | .here => (1, "")
  | .up => (2, "")
  | .name text => (3, text)

instance : Ord Component where
  compare a b := (compare a.rank.1 b.rank.1).then (compare a.rank.2 b.rank.2)

end Component

def isAbsolute (path : Path) : Bool :=
  path.text.toList.head? = some '/'

/-- Parts that move somewhere: not empty and not a `.`. -/
def movingParts (parts : List (List Char)) : List Component :=
  (parts.filter fun part => part ≠ [] && part ≠ ['.']).map Component.ofPart

def components (path : Path) : List Component :=
  match Text.split '/' path.text.toList with
  | ['.'] :: parts => .here :: movingParts parts
  | parts =>
    if path.isAbsolute then .root :: movingParts parts else movingParts parts

def ofComponents (components : List Component) : Path :=
  match components with
  | .root :: rest => ⟨"/" ++ String.intercalate "/" (rest.map Component.toText)⟩
  | _ => ⟨String.intercalate "/" (components.map Component.toText)⟩

/-- One component after those of `stack`, which lists the last one first. A `..` takes a name
away, stays at the root, and is kept where there is nothing to take away. -/
def enter (stack : List Component) (next : Component) : List Component :=
  match next with
  | .here => stack
  | .up =>
    match stack with
    | .name _ :: rest => rest
    | .root :: _ => stack
    | _ => .up :: stack
  | other => other :: stack

/-- The path without `.`, and with every `..` folded into the name before it. -/
def normalize (path : Path) : Path :=
  ofComponents (path.components.foldl enter []).reverse

/-- What a path is known by: two spellings of one place have one key. -/
def key (path : Path) : String :=
  path.normalize.text

def fileName? (path : Path) : Option String :=
  match path.components.getLast? with
  | some (.name text) => some text
  | _ => none

/-- A name cut at its last dot; a dot at the start does not count. -/
def splitName (name : String) : String × Option String :=
  let reversed := name.toList.reverse
  let extension := reversed.takeWhile (· ≠ '.')
  match reversed.drop extension.length with
  | '.' :: c :: stem =>
    (String.ofList (c :: stem).reverse, some (String.ofList extension.reverse))
  | _ => (name, none)

def extension? (path : Path) : Option String :=
  path.fileName?.bind fun name => (splitName name).2

def parent? (path : Path) : Option Path :=
  match path.components.getLast? with
  | none | some .root => none
  | some _ => some (ofComponents path.components.dropLast)

/-- `path` seen from `base`; an absolute path stands for itself. -/
def join (base path : Path) : Path :=
  if path.isAbsolute then path
  else if base.text.isEmpty then path
  else if base.text.toList.getLast? = some '/' then ⟨base.text ++ path.text⟩
  else ⟨base.text ++ "/" ++ path.text⟩

/-- The path with another extension after its file name, or none if that is empty. -/
def withExtension (path : Path) (extension : String) : Path :=
  match path.fileName? with
  | none => path
  | some name =>
    let stem := (splitName name).1
    let name := if extension.isEmpty then stem else stem ++ "." ++ extension
    ofComponents (path.components.dropLast ++ [.name name])

/-- Whether `path` is `directory` or lies below it, component by component. -/
def isWithin (path directory : Path) : Bool :=
  directory.components.isPrefixOf path.components

/-- Component-wise order. -/
def compareComponents : List Component → List Component → Ordering
  | [], [] => .eq
  | [], _ :: _ => .lt
  | _ :: _, [] => .gt
  | a :: as, b :: bs => (compare a b).then (compareComponents as bs)

instance : Ord Path where
  compare a b := compareComponents a.components b.components

/-- `path` as seen from `root`, without detours. -/
def resolve (root path : Path) : Path :=
  if path.isAbsolute then path.normalize else (root.join path).normalize

end Path
end FreshDocs
