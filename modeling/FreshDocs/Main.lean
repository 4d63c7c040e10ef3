import FreshDocs.CommandLine
import Std.Time.DateTime.Timestamp
/-!
The program. It reads whatever lies at the places that its arguments name, once and before
anything else; what it prints is then decided by the command line alone.
-/

namespace FreshDocs.Program

/-- The deepest nesting of directories that is read; a longer path could not be asked for. -/
def depthLimit : Nat := Files.pathLimit / 2

def timestampOf (time : IO.FS.SystemTime) : Timestamp :=
  .ofNanos (time.sec * 1000000000 + time.nsec.toNat)

/-- Reads a file, or a directory with all that is below it. Nothing is made of what cannot be
read or is neither. -/
def readEntry : (depth : Nat) → IO.FS.DirEntry → IO (Option (String × Node))
  | 0, _ => return none
  | depth + 1, entry => do
    try
      let found ← entry.path.metadata
      match found.type with
      | .file =>
        let content ← IO.FS.readBinFile entry.path
        return some (entry.fileName, .file content (timestampOf found.modified))
      | .dir =>
        let below ← (← entry.path.readDir).toList.filterMapM (readEntry depth)
        return some (entry.fileName, .directory below)
      | _ => return none
    catch _ => return none

def addPlace (files : Files) (place : String) : IO Files := do
  match ← readEntry depthLimit { root := ".", fileName := place } with
  | some (_, node) => return files.put ⟨place⟩ (some node)
  | none => return files

end FreshDocs.Program

open FreshDocs in
def main (arguments : List String) : IO UInt32 := do
  let current := (← IO.currentDir).components.filter (· ≠ "")
  let files ← (CommandLine.request arguments).places.foldlM Program.addPlace (.empty current)
  let now := Timestamp.ofNanos (← Std.Time.Timestamp.now).toNanosecondsSinceUnixEpoch.toInt
  let outcome := CommandLine.run now files arguments
  IO.print outcome.output
  return outcome.code.toUInt32
