import FreshDocs.Batch.Settings
/-!
The four ways to apply a batch, and the choice among them. The choice depends on the changed
paths, the number of cached analyses and the number of affected sections alone.
-/

namespace FreshDocs.Batch

inductive Strategy where
  /-- Drop everything and make all of it anew. -/
  | full
  /-- Drop what the changes touch; it is made anew when it is asked for. -/
  | incremental
  /-- Make the affected sections anew. -/
  | sections
  /-- Drop the changed templates and make anew what uses them. -/
  | templates
  deriving DecidableEq

namespace Strategy

def name : Strategy → String
  | .full => "full"
  | .incremental => "incremental"
  | .sections => "section"
  | .templates => "template"

/-- All strategies, in the order in which statistics list them. -/
def all : List Strategy := [.full, .incremental, .sections, .templates]

instance : ToJson Strategy := ⟨fun strategy => .string strategy.name⟩

def read? (value : Json) : Option Strategy :=
  Json.choice? (all.map fun strategy => (strategy.name, strategy)) value

/-- Whether `changed` files out of `cached` ones are too large a share. -/
def exceedsShare (settings : Settings) (changed cached : Nat) : Bool :=
  0 < cached && settings.fullThreshold < Float.ofNat changed / Float.ofNat cached

/-- The first rule that applies decides. -/
def choose (settings : Settings) (changed : List String) (cached affected : Nat) : Strategy :=
  if settings.maxIncrementalFiles < changed.length then .full
  else if exceedsShare settings changed.length cached then .full
  else if changed.any settings.isTemplate then .templates
  else if 0 < affected ∧ affected < settings.maxSectionUpdates then .sections
  else .incremental

end Strategy
end FreshDocs.Batch
