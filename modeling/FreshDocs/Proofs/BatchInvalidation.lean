import FreshDocs.Proofs.ArtifactRequests
import FreshDocs.Proofs.BatchWorkspace
import FreshDocs.Proofs.PathKeys

/-! What a batch drops from the stores of analyses and templates: everything that relies on a change,
and nothing else. Files that were deleted are forgotten one after the other while the rest of the
batch still follows the dependencies, but what relied on a forgotten file went along with it. -/

namespace FreshDocs

/-- The second store is the first without the entries of some keys. -/
def Store.Without {α : Type} (gone : String → Prop) (before after : Store α) : Prop :=
  ∀ (key : String) (entry : Store.Entry α), after.find? key = some entry ↔ before.find? key = some entry ∧ ¬gone key

namespace Store.Without
variable {α : Type} {first second third : Store α} {gone other : String → Prop}

theorem congr (without : Without gone first second) (same : ∀ key, gone key ↔ other key) :
    Without other first second := by
  intro key entry
  rw [without key entry, same key]

theorem refl (store : Store α) : Without (fun _ => False) store store := by
  simp [Without]

theorem trans (one : Without gone first second) (two : Without other second third) :
    Without (fun key => gone key ∨ other key) first third := by
  intro key entry
  rw [two key entry, one key entry, not_or, and_assoc]

theorem drop (store : Store α) (key : String) : Without (· = key) store (store.drop key) := by
  intro place entry
  rw [find?_drop]
  by_cases same : key = place
  · simp [same]
  · simp [same, Ne.symm same]

end Store.Without

namespace Artifacts
open Relation

theorem dropAll_without (keys : List String) (cache : Artifacts) :
    Store.Without (· ∈ keys) cache.analyses (dropAll keys cache).2.analyses ∧
      (dropAll keys cache).2.templates = cache.templates := by
  induction keys generalizing cache with
  | nil => exact ⟨(Store.Without.refl _).congr (by simp), rfl⟩
  | cons key rest ih =>
    obtain ⟨later, same⟩ := ih { cache with analyses := (cache.analyses.delete key).2 }
    exact ⟨((Store.Without.drop cache.analyses key).trans later).congr (by simp), same⟩

/-- What is left of the stores after some paths were invalidated, and some of them removed. -/
structure Left (before : Artifacts) (starts removed templates : String → Prop) (cache : Artifacts) : Prop where
  analyses : Store.Without (fun key => ∃ start, starts start ∧ before.graph.ReliesOn key start)
    before.analyses cache.analyses
  templates : Store.Without templates before.templates cache.templates
  mirrored : cache.graph.Mirrored
  edges : ∀ path target, cache.graph.DependsOn path target ↔ before.graph.DependsOn path target ∧ ¬removed path
  covered : ∀ path, removed path → starts path

namespace Left
variable {before cache : Artifacts} {starts removed templates : String → Prop}

theorem initial (mirrored : before.graph.Mirrored) :
    Left before (fun _ => False) (fun _ => False) (fun _ => False) before := by
  refine ⟨(Store.Without.refl _).congr (by simp), .refl _, mirrored, by simp, by simp⟩

theorem congr {others gone dropped : String → Prop} (left : Left before starts removed templates cache)
    (invalidated : ∀ key, starts key ↔ others key) (forgotten : ∀ key, removed key ↔ gone key)
    (refreshed : ∀ key, templates key ↔ dropped key) : Left before others gone dropped cache := by
  obtain rfl : starts = others := funext fun key => propext (invalidated key)
  obtain rfl : removed = gone := funext fun key => propext (forgotten key)
  obtain rfl : templates = dropped := funext fun key => propext (refreshed key)
  exact left

/-- What relied on a path still does, unless it relied on something that was invalidated before. -/
theorem relies (left : Left before starts removed templates cache) {path target : String}
    (relies : before.graph.ReliesOn path target) :
    cache.graph.ReliesOn path target ∨ ∃ start, starts start ∧ before.graph.ReliesOn path start := by
  induction relies using ReflTransGen.head_induction_on with
  | refl => exact .inl .refl
  | @head path next depends _ ih =>
    rcases ih with later | ⟨start, started, later⟩
    · by_cases forgotten : removed path
      · exact .inr ⟨path, left.covered path forgotten, .refl⟩
      · exact .inl (.head ((left.edges path next).mpr ⟨depends, forgotten⟩) later)
    · exact .inr ⟨start, started, .head depends later⟩

private theorem relied (left : Left before starts removed templates cache) {path target : String}
    (relies : cache.graph.ReliesOn path target) : before.graph.ReliesOn path target :=
  ReflTransGen.mono (fun path target depends => ((left.edges path target).mp depends).1) _ _ relies

theorem invalidate (left : Left before starts removed templates cache) (path : Path) :
    Left before (fun key => starts key ∨ key = path.key) removed templates (cache.invalidate path).2 := by
  obtain ⟨dropped, same⟩ := dropAll_without (cache.graph.cascade path.key) cache
  refine ⟨(left.analyses.trans dropped).congr fun key => ?_, ?_, ?_, ?_, fun key gone => .inl (left.covered key gone)⟩
  · rw [left.mirrored.mem_cascade_iff]
    constructor
    · rintro (⟨start, started, old⟩ | new)
      · exact ⟨start, .inl started, old⟩
      · exact ⟨path.key, .inr rfl, left.relied new⟩
    · rintro ⟨start, started | rfl, relies⟩
      · exact .inl ⟨start, started, relies⟩
      · exact (left.relies relies).symm
  · exact same ▸ left.templates
  · exact (graph_invalidate cache path).symm ▸ left.mirrored
  · exact (graph_invalidate cache path).symm ▸ left.edges

theorem invalidateAll (left : Left before starts removed templates cache) (paths : List Path) :
    Left before (fun key => starts key ∨ ∃ path ∈ paths, key = path.key) removed templates
      (Artifacts.invalidateAll paths cache).2 := by
  induction paths generalizing cache starts with
  | nil => exact left.congr (by simp) (by simp) (by simp)
  | cons path rest ih => exact (ih (left.invalidate path)).congr (by simp [or_assoc]) (by simp) (by simp)

theorem remove (left : Left before starts removed templates cache) (path : Path) :
    Left before (fun key => starts key ∨ key = path.key) (fun key => removed key ∨ key = path.key)
      (fun key => templates key ∨ key = path.key) (cache.remove path).2 := by
  have invalidated := left.invalidate path
  refine ⟨invalidated.analyses, invalidated.templates.trans (.drop _ _), invalidated.mirrored.forget path.key, ?_, ?_⟩
  · intro key target
    have cut : ((cache.invalidate path).2.graph.forget path.key).DependsOn key target ↔
        key ≠ path.key ∧ (cache.invalidate path).2.graph.DependsOn key target :=
      Dependencies.dependsOn_forget _ _
    rw [not_or, ← and_assoc, ← invalidated.edges key target, and_comm]
    exact cut
  · rintro key (old | new)
    · exact .inl (left.covered key old)
    · exact .inr new

private theorem removeAll (left : Left before starts removed templates cache) (paths : List Path) :
    Left before (fun key => starts key ∨ ∃ path ∈ paths, key = path.key)
      (fun key => removed key ∨ ∃ path ∈ paths, key = path.key)
      (fun key => templates key ∨ ∃ path ∈ paths, key = path.key)
      (paths.foldl (fun cache path => (cache.remove path).2) cache) := by
  induction paths generalizing cache starts removed templates with
  | nil => exact left.congr (by simp) (by simp) (by simp)
  | cons path rest ih =>
    exact (ih (left.remove path)).congr (by simp [or_assoc]) (by simp [or_assoc]) (by simp [or_assoc])

theorem invalidateTemplates (left : Left before starts removed templates cache) (paths : List Path) :
    Left before starts removed (fun key => templates key ∨ ∃ path ∈ paths, key = path.key)
      (Artifacts.invalidateTemplates paths cache).2 := by
  induction paths generalizing cache templates with
  | nil => exact left.congr (by simp) (by simp) (by simp)
  | cons path rest ih =>
    have dropped : Left before starts removed (fun key => templates key ∨ key = path.key)
        (cache.invalidateTemplate path).2 :=
      ⟨left.analyses, left.templates.trans (.drop _ _), left.mirrored, left.edges, left.covered⟩
    exact (ih dropped).congr (by simp) (by simp) (by simp [or_assoc])

end Left
end Artifacts

namespace Batch

/-! ### Plans -/

namespace Plan

private theorem mem_note {fates : Fates} {change : Change} {key : String} :
    key ∈ note fates change ↔
      key ∈ fates ∨ key = change.key ∨ ∃ source, change.source? = some source ∧ key = source.key := by
  unfold note
  cases origin : change.source? with
  | none =>
    rw [Std.ExtTreeMap.mem_insert, Std.compare_eq_iff_eq, eq_comm, or_comm]
    simp
  | some source =>
    simp only [Std.ExtTreeMap.mem_insert, Std.compare_eq_iff_eq, Option.some.injEq, exists_eq_left']
    grind

/-- The changed paths of a batch are those that its changes mention. -/
theorem mem_mentioned {changes : List Change} {key : String} :
    key ∈ mentioned changes ↔
      ∃ change ∈ changes, key = change.key ∨ ∃ source, change.source? = some source ∧ key = source.key := by
  have folded (fates : Fates) : key ∈ changes.foldl note fates ↔ key ∈ fates ∨
      ∃ change ∈ changes, key = change.key ∨ ∃ source, change.source? = some source ∧ key = source.key := by
    induction changes generalizing fates with
    | nil => simp
    | cons change rest ih => simp [ih, mem_note, or_assoc]
  rw [mentioned, Std.ExtTreeMap.mem_keys, folded]
  simp

section
variable {settings : Settings} {cached : Nat} {sections : Sections} {changes : List Change}

private theorem removed_subset : (ofChanges settings cached sections changes).removed ⊆
    (ofChanges settings cached sections changes).changed := by
  intro key member
  simp only [ofChanges, mentioned, Std.ExtTreeMap.mem_keys] at member ⊢
  exact Std.ExtTreeMap.mem_of_mem_filter member

/-- Changed paths are keys. -/
theorem key_changed {key : String} (member : key ∈ (ofChanges settings cached sections changes).changed) :
    (Path.mk key).key = key := by
  obtain ⟨change, -, rfl | ⟨source, -, rfl⟩⟩ := mem_mentioned.mp member
  · exact Path.key_key _
  · exact Path.key_key _

/-- Where a batch does not refresh templates or start anew, none of its changes is one. -/
theorem not_isTemplate {key : String} (full : (ofChanges settings cached sections changes).strategy ≠ .full)
    (templates : (ofChanges settings cached sections changes).strategy ≠ .templates)
    (member : key ∈ (ofChanges settings cached sections changes).changed) : settings.isTemplate key = false := by
  cases named : settings.isTemplate key with
  | false => rfl
  | true =>
    have some : (mentioned changes).any settings.isTemplate = true := List.any_eq_true.mpr ⟨key, member, named⟩
    simp only [ofChanges, Strategy.choose, some, if_true] at full templates
    split at full
    · exact (full rfl).elim
    · rw [if_neg ‹_›] at templates
      split at full
      · exact (full rfl).elim
      · exact (templates (if_neg ‹_›)).elim

end

/-- What is known of a plan, wherever it came from. -/
structure Sound (settings : Settings) (plan : Plan) : Prop where
  keys : ∀ key ∈ plan.changed, (Path.mk key).key = key
  removed : plan.removed ⊆ plan.changed
  templates : plan.templates = plan.changed.filter settings.isTemplate
  sources : plan.strategy ≠ .full → plan.strategy ≠ .templates → ∀ key ∈ plan.changed, settings.isTemplate key = false

private theorem sound_ofChanges (settings : Settings) (cached : Nat) (sections : Sections) (changes : List Change) :
    Sound settings (ofChanges settings cached sections changes) :=
  ⟨fun _ => key_changed, removed_subset, rfl, fun full templates _ => not_isTemplate full templates⟩

theorem mem_live {plan : Plan} {key : String} : key ∈ plan.live ↔ key ∈ plan.changed ∧ key ∉ plan.removed := by
  simp [live]

/-- The path of a key has that key. -/
theorem mem_paths {keys : List String} (settled : ∀ key ∈ keys, (Path.mk key).key = key) {key : String} :
    (∃ path ∈ keys.map Path.mk, key = path.key) ↔ key ∈ keys := by
  constructor
  · rintro ⟨path, member, rfl⟩
    obtain ⟨spelled, listed, rfl⟩ := List.mem_map.mp member
    rwa [settled spelled listed]
  · intro member
    exact ⟨⟨key⟩, List.mem_map.mpr ⟨key, member, rfl⟩, (settled key member).symm⟩

end Plan

namespace Machine
open Artifacts

/-- The changed paths that analyses are dropped for: all but the templates that still exist. -/
def Touched (settings : Settings) (plan : Plan) (key : String) : Prop :=
  key ∈ plan.changed ∧ ¬(key ∉ plan.removed ∧ settings.isTemplate key = true)

def Recompiled (settings : Settings) (plan : Plan) (key : String) : Prop :=
  key ∈ plan.removed ∨ key ∈ plan.changed ∧ settings.isTemplate key = true

private theorem invalidate_left {settings : Settings} {plan : Plan} {workspace : Workspace} (now : Timestamp)
    (sound : plan.Sound settings) (full : plan.strategy ≠ .full) (mirrored : workspace.artifacts.graph.Mirrored) :
    Left workspace.artifacts (Touched settings plan) (· ∈ plan.removed) (Recompiled settings plan)
      (invalidate now settings plan workspace).artifacts := by
  have gone {key : String} : (∃ path ∈ plan.removed.map Path.mk, key = path.key) ↔ key ∈ plan.removed :=
    Plan.mem_paths fun key member => sound.keys key (sound.removed member)
  have alive {key : String} : (∃ path ∈ plan.live.map Path.mk, key = path.key) ↔ key ∈ plan.live :=
    Plan.mem_paths fun key member => sound.keys key (Plan.mem_live.mp member).1
  have removed := (Left.initial mirrored).removeAll (plan.removed.map Path.mk)
  -- Without templates among the changes, all that still exist are invalidated alike.
  have plain (templates : plan.strategy ≠ .templates) :
      Left workspace.artifacts (Touched settings plan) (· ∈ plan.removed) (Recompiled settings plan)
        (invalidateAll (plan.live.map Path.mk)
          ((plan.removed.map Path.mk).foldl (fun cache path => (cache.remove path).2) workspace.artifacts)).2 := by
    have source := sound.sources full templates
    refine (removed.invalidateAll (plan.live.map Path.mk)).congr (fun key => ?_) (fun key => ?_) fun key => ?_
    · rw [gone, alive, Plan.mem_live, Touched]
      have within := @sound.removed key
      have named := source key
      grind
    · rw [gone, false_or]
    · rw [gone, false_or, Recompiled]
      have named := source key
      grind
  simp only [invalidate]
  cases strategy : plan.strategy with
  | full => exact (full strategy).elim
  | sections => exact plain (by simp [strategy])
  | incremental => exact plain (by simp [strategy])
  | templates =>
    have refreshed {key : String} : (∃ path ∈ plan.templates.map Path.mk, key = path.key) ↔ key ∈ plan.templates :=
      Plan.mem_paths fun key member =>
        sound.keys key (List.mem_filter.mp (by rwa [sound.templates] at member)).1
    have source {key : String} : (∃ path ∈ (plan.live.filter (!settings.isTemplate ·)).map Path.mk, key = path.key) ↔
        key ∈ plan.live ∧ settings.isTemplate key = false := by
      rw [Plan.mem_paths fun key member => sound.keys key (Plan.mem_live.mp (List.mem_filter.mp member).1).1]
      simp
    refine ((removed.invalidateTemplates _).invalidateAll _).congr (fun key => ?_) (fun key => ?_) fun key => ?_
    · rw [gone, source, Plan.mem_live, Touched]
      have within := @sound.removed key
      grind
    · rw [gone, false_or]
    · rw [gone, refreshed, false_or, sound.templates, List.mem_filter, Recompiled]

/-- Whatever a batch is made of, and however its regenerator ends, the batch drops what relies on its
changes and nothing else; a batch that starts anew leaves nothing. -/
theorem apply_invalidates_exactly {σ : Type} (limits : Limits) (requests : List (Timestamp × Request))
    {regenerator : Regenerator σ}
    (aloof : ∀ (job : Job) (now : Timestamp) (world : Workspace × σ),
      (regenerator.act job now world).2.1.artifacts = world.1.artifacts ∧
        (regenerator.act job now world).2.1.snapshots = world.1.snapshots)
    {machine : Machine σ} (reached : machine.workspace.artifacts = Artifacts.run (.empty limits) requests)
    (gathered : machine.scheduler.pending ≠ []) (now : Timestamp) (next : After) (wakes : List Timestamp) :
    let before := machine.workspace.artifacts
    let applied := apply regenerator now next machine
    let after := (wakes.foldl (fun machine time => wake regenerator time machine) applied).workspace
    (machine.plan.strategy = .full →
      (∀ key, after.artifacts.analyses.find? key = none) ∧ (∀ key, after.artifacts.templates.find? key = none) ∧
        after.artifacts.graph = {} ∧ ∀ key, after.snapshots.store.find? key = none) ∧
    (machine.plan.strategy ≠ .full →
      Store.Without (fun key => ∃ path ∈ machine.plan.changed,
          ¬(path ∉ machine.plan.removed ∧ machine.scheduler.settings.isTemplate path = true) ∧
            before.graph.ReliesOn key path)
        before.analyses after.artifacts.analyses ∧
      Store.Without (fun key => key ∈ machine.plan.removed ∨
          key ∈ machine.plan.changed ∧ machine.scheduler.settings.isTemplate key = true)
        before.templates after.artifacts.templates) := by
  intro before applied after
  have mirrored : machine.workspace.artifacts.graph.Mirrored := by
    rw [reached]
    exact run_mirrored limits requests
  let dropped := invalidate now machine.scheduler.settings machine.plan machine.workspace
  have keeps : regenerator.Keeps fun workspace =>
      workspace.artifacts = dropped.artifacts ∧ workspace.snapshots = dropped.snapshots := by
    refine ⟨fun job now world held => ?_, fun _ _ _ held => held⟩
    obtain ⟨artifacts, snapshots⟩ := aloof job now world
    exact ⟨artifacts.trans held.1, snapshots.trans held.2⟩
  obtain ⟨artifacts, snapshots⟩ := wakes_keep keeps wakes (apply_keeps keeps now next gathered ⟨rfl, rfl⟩)
  change after.artifacts = _ at artifacts
  change after.snapshots = _ at snapshots
  rw [artifacts, snapshots]
  refine ⟨fun full => ?_, fun full => ?_⟩
  · simp [dropped, invalidate, full, Artifacts.clear, Snapshots.clear, Store.clear, Store.find?]
  · have sound : machine.plan.Sound machine.scheduler.settings := Plan.sound_ofChanges _ _ _ _
    have left := invalidate_left now sound full mirrored
    refine ⟨left.analyses.congr fun key => ?_, left.templates⟩
    simp only [Touched, and_assoc]
    rfl

def storing : List (Timestamp × Request) :=
  let files : Files :=
    { root := .directory [("page.md", .file .empty .epoch), ("page.hbs", .file .empty .epoch)], current := [] }
  let page : FileStamp := { path := ⟨"/page.md"⟩, digest := .ofBytes .empty, size := 0, modified := .epoch }
  let template : Template := { path := ⟨"/page.hbs"⟩, sourceDigest := page.digest, compiled := "" }
  [(.epoch, .set files page.path (.ofStamp page .null []) ["/a.src"]),
    (.epoch, .setTemplate files template.path template)]

/-- The source and the template have changed, and the regenerator is about to crash. -/
def crashing (settings : Settings) : Machine Script where
  scheduler :=
    { Scheduler.new settings with
      pending := ["/a.src", "/page.hbs"].map fun text => { path := ⟨text⟩, kind := .modified, timestamp := .epoch } }
  workspace :=
    { files := .empty [], artifacts := Artifacts.run (.empty {}) storing, snapshots := .empty {} }
  own := { steps := [{ outcome := .crashed none }] }

/-- Two changed files are too large a share of a single cached one, unless a share of two is allowed. -/
theorem crashing_invalidates_exactly :
    let left (settings : Settings) :=
      let applied := apply Script.regenerator .epoch .gather (crashing settings)
      ([Timestamp.epoch].foldl (fun machine time => wake Script.regenerator time machine) applied).workspace
    let lenient : Settings := { fullThreshold := 2.0 }
    (∀ settings, (crashing settings).scheduler.pending ≠ []) ∧
      ((crashing {}).plan.strategy = .full ∧ (∀ key, (left {}).artifacts.analyses.find? key = none) ∧
        (∀ key, (left {}).artifacts.templates.find? key = none) ∧ (left {}).artifacts.graph = {} ∧
        ∀ key, (left {}).snapshots.store.find? key = none) ∧
      (crashing lenient).plan.strategy ≠ .full ∧
      Store.Without (fun key => ∃ path ∈ (crashing lenient).plan.changed,
          ¬(path ∉ (crashing lenient).plan.removed ∧ (crashing lenient).scheduler.settings.isTemplate path = true) ∧
            (crashing lenient).workspace.artifacts.graph.ReliesOn key path)
        (crashing lenient).workspace.artifacts.analyses (left lenient).artifacts.analyses ∧
      Store.Without (fun key => key ∈ (crashing lenient).plan.removed ∨
          key ∈ (crashing lenient).plan.changed ∧ (crashing lenient).scheduler.settings.isTemplate key = true)
        (crashing lenient).workspace.artifacts.templates (left lenient).artifacts.templates := by
  intro left lenient
  have gathered (settings : Settings) : (crashing settings).scheduler.pending ≠ [] := List.cons_ne_nil _ _
  have exactly (settings : Settings) := @apply_invalidates_exactly Script {} storing Script.regenerator
    (fun _ _ _ => ⟨rfl, rfl⟩) (crashing settings) rfl (gathered settings) .epoch .gather [.epoch]
  have anew : (crashing {}).plan.strategy = .full := by decide +kernel
  have partly : (crashing lenient).plan.strategy ≠ .full := by decide +kernel
  simp only [left]
  exact ⟨gathered, ⟨anew, (exactly {}).1 anew⟩, partly, (exactly lenient).2 partly⟩

end Machine
end Batch
end FreshDocs
