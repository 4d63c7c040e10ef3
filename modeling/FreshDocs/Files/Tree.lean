import FreshDocs.Files.Fault
import FreshDocs.Path.Basic
import FreshDocs.Time.Timestamp
/-!
A tree of files. A path is looked up one component at a time from the root or from the
current directory: `..` leads to the directory above, and a step into what is no directory
fails there, whatever comes after it.
-/

namespace FreshDocs

inductive Node where
  | file (content : ByteArray) (modified : Timestamp)
  | directory (entries : List (String × Node))

instance : Inhabited Node := ⟨.directory []⟩

namespace Node

def entry? (name : String) : Node → Option Node
  | .directory entries => (entries.find? (·.1 = name)).map (·.2)
  | .file .. => none

def isDirectory : Node → Bool
  | .directory _ => true
  | .file .. => false

def at? (names : List String) (node : Node) : Option Node :=
  match names with
  | [] => some node
  | name :: rest => (node.entry? name).bind (at? rest)

/-- The entries of a directory; a file has none. -/
def entries : Node → List (String × Node)
  | .directory entries => entries
  | .file .. => []

/-- A list of entries with one replaced, added or, for `none`, taken out. -/
def setEntry (name : String) (node : Option Node) : List (String × Node) → List (String × Node)
  | [] => (node.map (name, ·)).toList
  | (other, old) :: rest =>
    if other = name then (node.map (name, ·)).toList ++ rest
    else (other, old) :: setEntry name node rest

/-- The tree with another node at the end of `names`, or with none there. Directories on the
way are made where they are missing. -/
def put (names : List String) (node : Option Node) (tree : Node) : Node :=
  match names with
  | [] => node.getD tree
  | [name] => .directory (setEntry name node tree.entries)
  | name :: rest =>
    let below := (tree.entry? name).getD (.directory [])
    .directory (setEntry name (some (put rest node below)) tree.entries)

end Node

/-- All files, and the directory that relative paths start from. -/
structure Files where
  root : Node
  current : List String

namespace Files

def empty (current : List String) : Files :=
  { root := Node.put current (some (.directory [])) (.directory []), current }

/-- The longest name of a file, in bytes. -/
def nameLimit : Nat := 255

/-- The longest path, in bytes. -/
def pathLimit : Nat := 4095

/-- Follows the parts of a path; `above` holds the names of the way here, the last one first,
with the nodes they lie in. -/
def follow (above : List (String × Node)) (node : Node) :
    List (List Char) → Except Fault (List (String × Node) × Node)
  | [] => .ok (above, node)
  | part :: rest =>
    if ¬node.isDirectory then .error .notADirectory
    else if part = [] ∨ part = ['.'] then follow above node rest
    else if part = ['.', '.'] then
      match above with
      | [] => follow [] node rest
      | (_, parent) :: others => follow others parent rest
    else
      let name := String.ofList part
      if nameLimit < name.utf8ByteSize then .error .nameTooLong
      else
        match node.entry? name with
        | none => .error .notFound
        | some next => follow ((name, node) :: above) next rest

/-- The way to the current directory, in the form `follow` takes. -/
def here (files : Files) : List (String × Node) × Node :=
  files.current.foldl (fun (above, node) name =>
    ((name, node) :: above, (node.entry? name).getD default)) ([], files.root)

/-- What a path leads to, with the way there. -/
def locate (files : Files) (path : Path) : Except Fault (List (String × Node) × Node) :=
  if path.text.toList.contains '\x00' then .error .nulInName
  else if path.text.isEmpty then .error .notFound
  else if pathLimit < path.text.utf8ByteSize then .error .nameTooLong
  else
    let (above, start) := if path.isAbsolute then ([], files.root) else files.here
    follow above start (Text.split '/' path.text.toList)

def node (files : Files) (path : Path) : Except Fault Node :=
  (files.locate path).map (·.2)

def canonicalize (files : Files) (path : Path) : Except Fault Path :=
  (files.locate path).map fun (above, _) =>
    ⟨"/" ++ String.intercalate "/" (above.reverse.map (·.1))⟩

def read (files : Files) (path : Path) : Except Fault ByteArray :=
  match files.node path with
  | .error fault => .error fault
  | .ok (.directory _) => .error .isADirectory
  | .ok (.file content _) => .ok content

def readText (files : Files) (path : Path) : Except Fault String :=
  match files.read path with
  | .error fault => .error fault
  | .ok content =>
    match String.fromUTF8? content with
    | some text => .ok text
    | none => .error .notText

/-- The names that lead to a path from the root, read off its spelling. -/
def names (files : Files) (path : Path) : List String :=
  let base : Path := ⟨"/" ++ String.intercalate "/" files.current⟩
  (Path.resolve base path).components.filterMap fun
    | .name text => some text
    | _ => none

/-- Puts a node at a path, or takes away what is there. -/
def put (files : Files) (path : Path) (node : Option Node) : Files :=
  { files with root := files.root.put (files.names path) node }

def write (files : Files) (path : Path) (content : ByteArray) (modified : Timestamp) : Files :=
  files.put path (some (.file content modified))

/-- Stamps a file as modified without changing it. -/
def touch (files : Files) (path : Path) (modified : Timestamp) : Files :=
  match files.root.at? (files.names path) with
  | some (.file content _) => files.write path content modified
  | _ => files

def remove (files : Files) (path : Path) : Files :=
  files.put path none

/-- Makes a directory where there is nothing. -/
def makeDirectory (files : Files) (path : Path) : Files :=
  match files.root.at? (files.names path) with
  | some _ => files
  | none => files.put path (some (.directory []))

def move (files : Files) (source target : Path) : Files :=
  match files.root.at? (files.names source) with
  | some node => (files.remove source).put target (some node)
  | none => files

end Files
end FreshDocs
