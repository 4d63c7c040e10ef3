import FreshDocs.Proofs.DependencyCascade

/-! Everything that can be asked of the stores of analyses and templates. Whatever is asked, the
dependencies between files stay known from both of their ends. -/

namespace FreshDocs.Artifacts

inductive Request where
  | set (files : Files) (path : Path) (analysis : Analysis) (dependencies : List String)
  | get (files : Files) (path : Path)
  | invalidate (path : Path)
  | invalidateAll (paths : List Path)
  | remove (path : Path)
  | setTemplate (files : Files) (path : Path) (template : Template)
  | getTemplate (files : Files) (path : Path)
  | invalidateTemplate (path : Path)
  | invalidateTemplates (paths : List Path)
  | sweep
  | clear

def Request.apply (now : Timestamp) (cache : Artifacts) : Request → Artifacts
  | .set files path analysis dependencies => (cache.set files now path analysis dependencies).2
  | .get files path => (cache.get files now path).2
  | .invalidate path => (cache.invalidate path).2
  | .invalidateAll paths => (Artifacts.invalidateAll paths cache).2
  | .remove path => (cache.remove path).2
  | .setTemplate files path template => (cache.setTemplate files now path template).2
  | .getTemplate files path => (cache.getTemplate files now path).2
  | .invalidateTemplate path => (cache.invalidateTemplate path).2
  | .invalidateTemplates paths => (Artifacts.invalidateTemplates paths cache).2
  | .sweep => (cache.sweep now).2
  | .clear => cache.clear

def run (cache : Artifacts) : List (Timestamp × Request) → Artifacts
  | [] => cache
  | (now, request) :: rest => run (request.apply now cache) rest

/-! ### The graph -/

@[simp] theorem graph_dropAll (keys : List String) (cache : Artifacts) :
    (dropAll keys cache).2.graph = cache.graph := by
  induction keys generalizing cache with
  | nil => rfl
  | cons key rest ih => exact ih _

@[simp] theorem graph_invalidate (cache : Artifacts) (path : Path) :
    (cache.invalidate path).2.graph = cache.graph :=
  graph_dropAll _ cache

@[simp] theorem graph_invalidateAll (paths : List Path) (cache : Artifacts) :
    (invalidateAll paths cache).2.graph = cache.graph := by
  induction paths generalizing cache with
  | nil => rfl
  | cons path rest ih => exact (ih _).trans (graph_invalidate cache path)

@[simp] theorem graph_invalidateTemplates (paths : List Path) (cache : Artifacts) :
    (invalidateTemplates paths cache).2.graph = cache.graph := by
  induction paths generalizing cache with
  | nil => rfl
  | cons path rest ih => exact ih _

theorem graph_get (cache : Artifacts) (files : Files) (now : Timestamp) (path : Path) :
    (cache.get files now path).2.graph = cache.graph := by
  unfold get
  dsimp only
  split
  next => rfl
  next =>
    split
    · exact graph_invalidate cache path
    · rfl
  next live found =>
    have same : (cache.lookup now path.key (some live.digest)).2.graph = cache.graph := rfl
    split
    next analysis after served =>
      rw [served] at same
      split <;> exact same
    next after served =>
      rw [served] at same
      split
      · exact (graph_invalidate after path).trans same
      · exact same

theorem graph_getTemplate (cache : Artifacts) (files : Files) (now : Timestamp) (path : Path) :
    (cache.getTemplate files now path).2.graph = cache.graph := by
  unfold getTemplate
  dsimp only
  split <;> rfl

/-- A request leaves the graph as it is, or records or forgets what one path depends on, or empties it. -/
theorem graph_apply (now : Timestamp) (cache : Artifacts) (request : Request) :
    let after := (request.apply now cache).graph
    after = cache.graph ∨ (∃ (path : Path) (targets : List String), after = cache.graph.record path.key targets) ∨
      (∃ path : Path, after = cache.graph.forget path.key) ∨ after = {} := by
  cases request with
  | set files path analysis dependencies =>
    simp only [Request.apply, set]
    split
    · exact .inl rfl
    · exact .inl rfl
    · split
      · exact .inl rfl
      · exact .inr (.inl ⟨path, dependencies, rfl⟩)
  | get files path => exact .inl (graph_get cache files now path)
  | invalidate path => exact .inl (graph_invalidate cache path)
  | invalidateAll paths => exact .inl (graph_invalidateAll paths cache)
  | remove path =>
    have same := graph_invalidate cache path
    exact .inr (.inr (.inl ⟨path, congrArg (·.forget path.key) same⟩))
  | setTemplate files path template =>
    simp only [Request.apply, setTemplate]
    split <;> exact .inl rfl
  | getTemplate files path => exact .inl (graph_getTemplate cache files now path)
  | invalidateTemplate path => exact .inl rfl
  | invalidateTemplates paths => exact .inl (graph_invalidateTemplates paths cache)
  | sweep => exact .inl rfl
  | clear => exact .inr (.inr (.inr rfl))

theorem apply_mirrored {cache : Artifacts} (mirrored : cache.graph.Mirrored) (now : Timestamp)
    (request : Request) : (request.apply now cache).graph.Mirrored := by
  rcases graph_apply now cache request with same | ⟨path, targets, recorded⟩ | ⟨path, forgotten⟩ | emptied
  · exact same.symm ▸ mirrored
  · exact recorded.symm ▸ mirrored.record path.key targets
  · exact forgotten.symm ▸ mirrored.forget path.key
  · exact emptied.symm ▸ .empty

/-- What every request keeps is kept throughout a run. -/
theorem run_keeps (property : Artifacts → Prop)
    (step : ∀ now cache request, property cache → property (Request.apply now cache request)) {cache : Artifacts}
    (valid : property cache) (requests : List (Timestamp × Request)) : property (run cache requests) := by
  induction requests generalizing cache with
  | nil => exact valid
  | cons entry rest ih => exact ih (step entry.1 cache entry.2 valid)

theorem run_mirrored (limits : Limits) (requests : List (Timestamp × Request)) :
    (run (empty limits) requests).graph.Mirrored := by
  apply run_keeps (·.graph.Mirrored) ?_ .empty requests
  intro now cache request mirrored
  exact apply_mirrored mirrored now request

end FreshDocs.Artifacts
