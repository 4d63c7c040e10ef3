import FreshDocs.Workspace
/-!
What makes documents anew. The scheduler invalidates; a regenerator only produces. It may take
its time before it acts, it may fail, and it may crash without bringing the scheduler down.
-/

namespace FreshDocs.Batch

/-- What a regenerator can be asked for. -/
inductive Job where
  /-- Everything, after the stores were emptied. -/
  | everything
  | single (part : Section)
  /-- Templates, by path key. -/
  | templates (paths : List String)

def Job.name : Job → String
  | .everything => "all"
  | .single part => "section:" ++ part.id
  | .templates paths => "templates:" ++ String.intercalate "," paths

inductive Outcome where
  | done
  | failed (reason : String)
  /-- A crash, with words where it left any. -/
  | crashed (words : Option String)
  deriving DecidableEq

def Outcome.failure? : Outcome → Option String
  | .done => none
  | .failed reason => some reason
  | .crashed (some words) => some s!"regeneration panicked: {words}"
  | .crashed none => some "regeneration panicked"

/-- A regenerator with a state of its own. -/
structure Regenerator (σ : Type) where
  /-- Takes a job on, and says how many milliseconds it waits before it acts. -/
  start : Job → Timestamp → σ → Nat × σ
  act : Job → Timestamp → Workspace × σ → Outcome × (Workspace × σ)

namespace Regenerator

/-- The regenerator that produces nothing. -/
def idle : Regenerator Unit where
  start _ _ state := (0, state)
  act _ _ world := (.done, world)

end Regenerator

/-- One entry of a script: a wait, and how the job ends. -/
structure Script.Step where
  delay : Nat := 0
  outcome : Outcome := .done

/-- The state of a regenerator that follows a script and keeps a record of what it was asked. -/
structure Script where
  steps : List Script.Step
  current : Script.Step := {}
  calls : Array (Job × Timestamp) := #[]

namespace Script

/-- Each job follows the next step; after the last one, all succeed at once. -/
def regenerator : Regenerator Script where
  start job now script :=
    let step := script.steps.headD {}
    (step.delay,
      { steps := script.steps.tail, current := step, calls := script.calls.push (job, now) })
  act _ _ world := (world.2.current.outcome, world)

end Script
end FreshDocs.Batch
