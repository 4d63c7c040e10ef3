import FreshDocs.Batch.Strategy
import FreshDocs.Change.Event
import FreshDocs.Sections.Basic
import Std.Data.ExtTreeMap
/-!
What a batch of changes amounts to. The last change of a path decides whether the file still
exists; a renaming takes away the path it came from.
-/

namespace FreshDocs.Batch

structure Plan where
  strategy : Strategy
  /-- All paths mentioned, ascending. -/
  changed : List String
  /-- Those of them that no longer exist. -/
  removed : List String
  /-- Those of them that are templates. -/
  templates : List String
  /-- The sections that a change affects, by ascending id. -/
  sections : List Section

namespace Plan

/-- For each path mentioned so far, whether it is gone. -/
abbrev Fates := Std.ExtTreeMap String Bool

/-- What one more change does to the paths it mentions. -/
def note (fates : Fates) (change : Change) : Fates :=
  let fates :=
    match change.source? with
    | some source => fates.insert source.key true
    | none => fates
  fates.insert change.key (change.kind = .deleted)

def mentioned (changes : List Change) : List String :=
  (changes.foldl note ∅).keys

def ofChanges (settings : Settings) (cached : Nat) (sections : Sections) (changes : List Change) :
    Plan :=
  let fates := changes.foldl note ∅
  let changed := mentioned changes
  let affected := sections.affectedBy changed
  { strategy := Strategy.choose settings changed cached affected.length
    changed
    removed := (fates.filter fun _ gone => gone).keys
    templates := changed.filter settings.isTemplate
    sections := affected }

def live (plan : Plan) : List String :=
  plan.changed.filter (!plan.removed.contains ·)

end Plan
end FreshDocs.Batch
