import FreshDocs.Artifacts.Dependencies
import FreshDocs.Files.Stamp
/-!
Sections of the documentation, and the files and templates they are made from.
-/

namespace FreshDocs

structure Section where
  id : String
  files : PathSet := ∅
  template : Option String := none
  /-- When the section was last made anew. -/
  lastUpdated : Option Timestamp := none

namespace Section

def dependsOn (part : Section) (path : String) : Bool :=
  part.files.contains path || part.template = some path

instance : ToJson Section where
  toJson part := .object
    [("id", toJson part.id), ("dependent_files", toJson part.files.toList),
     ("template_id", toJson part.template), ("last_updated", toJson part.lastUpdated)]

end Section

/-- The registered sections, in ascending order of their ids. -/
structure Sections where
  byId : Std.ExtTreeMap String Section
  /-- Every section is registered under its own id. -/
  filed : ∀ id (part : Section), byId[id]? = some part → part.id = id

namespace Sections

instance : EmptyCollection Sections where
  emptyCollection := { byId := ∅, filed := by simp }

def register (sections : Sections) (part : Section) : Sections where
  byId := sections.byId.insert part.id part
  filed id other found := by
    rw [Std.ExtTreeMap.getElem?_insert] at found
    split at found
    next same => exact Option.some.inj found ▸ Std.compare_eq_iff_eq.mp same
    next => exact sections.filed id other found

def unregister (sections : Sections) (id : String) : Option Section × Sections :=
  (sections.byId[id]?,
    { byId := sections.byId.erase id
      filed := fun other part found => by
        rw [Std.ExtTreeMap.getElem?_erase] at found
        split at found
        · cases found
        · exact sections.filed other part found })

def find? (sections : Sections) (id : String) : Option Section :=
  sections.byId[id]?

def all (sections : Sections) : List Section :=
  sections.byId.values

def affectedBy (sections : Sections) (paths : List String) : List Section :=
  sections.all.filter fun part => paths.any part.dependsOn

def markUpdated (sections : Sections) (id : String) (now : Timestamp) : Sections :=
  match sections.find? id with
  | some part => sections.register { part with lastUpdated := some now }
  | none => sections

def count (sections : Sections) : Nat :=
  sections.byId.size

end Sections
end FreshDocs
