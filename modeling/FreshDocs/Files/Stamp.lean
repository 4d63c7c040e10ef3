import FreshDocs.Files.Tree
import FreshDocs.Digest.Basic
import FreshDocs.Time.Rfc3339
/-!
The identity of a file at one point in time: digest, size and time of its last change. It is
taken afresh for every check and holds for that check only.
-/

namespace FreshDocs

instance : ToJson Timestamp := ⟨fun t => .string t.toText⟩
instance : ToJson Path := ⟨fun path => .string path.text⟩

/-- Reads a timestamp from structured data, where it is a text. -/
def Timestamp.ofJson? (value : Json) : Option Timestamp :=
  value.string?.bind Timestamp.parse?

/-- Why stored or live content could not be used. -/
inductive StoreError where
  | unreadable (path : Path) (fault : Fault)
  | badDigest (fault : Digest.Fault)
  deriving DecidableEq

namespace StoreError

def message : StoreError → String
  | .unreadable path fault => s!"i/o error on {path.text}: {fault.text}"
  | .badDigest fault => s!"hash error: {fault.message}"

def kind : StoreError → String
  | .unreadable .. => "Io"
  | .badDigest _ => "Hash"

instance : ToJson StoreError := ⟨fun error => Json.failure error.kind error.message⟩

def isTransient : StoreError → Bool
  | .unreadable _ fault => fault.isTransient
  | .badDigest _ => false

end StoreError

structure FileStamp where
  path : Path
  digest : Digest
  size : Nat
  modified : Timestamp
  deriving DecidableEq

namespace FileStamp

/-- The stamp of the file at `path` now; there is none where no file is. -/
def read (files : Files) (path : Path) : Except StoreError (Option FileStamp) :=
  match files.node path with
  | .error fault => if fault.isNotFound then .ok none else .error (.unreadable path fault)
  | .ok (.directory _) => .ok none
  | .ok (.file content modified) =>
    .ok (some { path, digest := Digest.ofBytes content, size := content.size, modified })

/-- Whether both describe the same content, unchanged since. The spelling of the path does not
matter. -/
def agrees (a b : FileStamp) : Bool :=
  a.digest = b.digest && a.size = b.size && a.modified = b.modified

instance : ToJson FileStamp where
  toJson stamp := .object
    [("path", toJson stamp.path), ("hash", toJson stamp.digest), ("size", toJson stamp.size),
     ("modified", toJson stamp.modified)]

def digestOf (files : Files) (path : Path) : Except StoreError (Option Digest) :=
  (read files path).map (Option.map (·.digest))

end FileStamp
end FreshDocs
