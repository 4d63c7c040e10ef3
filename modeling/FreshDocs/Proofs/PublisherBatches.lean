import FreshDocs.Proofs.EngineRuns
import FreshDocs.Proofs.Publications
import FreshDocs.Proofs.SectionBatches

/-! Which documents a publisher hands over for a batch, and which sections are stamped meanwhile. Section updates and
template refreshes stamp what they publish. A full regeneration publishes everything and stamps nothing. What an
operation says it affected was published by section updates and full regenerations; template refreshes publish only what
is made with a changed template, and incremental updates publish nothing. -/

namespace FreshDocs
open Batch

namespace Sections

private theorem find?_foldl_markUpdated (now : Timestamp) (ids : List String) (sections : Sections) (id : String) :
    (ids.foldl (fun sections id => sections.markUpdated id now) sections).find? id =
      if id ∈ ids then (sections.find? id).map (·.stamped now) else sections.find? id := by
  induction ids generalizing sections with
  | nil => simp
  | cons first rest ih =>
    rw [List.foldl_cons, ih, find?_markUpdated]
    by_cases here : first = id
    · subst here
      simp only [List.mem_cons, true_or, if_true, Option.map_map]
      split
      · rfl
      · rfl
    · simp only [if_neg here, List.mem_cons, Ne.symm here, false_or]

end Sections

namespace Publisher

section
variable {project : Project} {now : Timestamp}

/-- Sections are only touched by what is done with them after they were published. -/
theorem publishSections_sections (aside : project.analyzer.Aside) {published : Section → Workspace → Workspace}
    (mark : Sections → Section → Sections)
    (marks : ∀ part workspace, (published part workspace).sections = mark workspace.sections part)
    (parts : List Section) (world : World) :
    (publishSections project now published parts world).2.1.sections =
      ((renderings project now published parts world.1).map (·.1)).foldl mark world.1.sections := by
  induction parts generalizing world with
  | nil => rfl
  | cons part rest ih =>
    have same := Project.renderSection_sections now aside part world.1
    rw [publishSections, renderings, publishSection]
    generalize project.renderSection now part world.1 = result at same ⊢
    obtain ⟨answer, workspace⟩ := result
    change workspace.sections = world.1.sections at same
    cases answer with
    | error error => exact same
    | ok document =>
      dsimp only
      rw [ih, marks, same]
      rfl

private theorem publishSections_untouched (aside : project.analyzer.Aside) (parts : List Section) (world : World) :
    (publishSections project now (fun _ workspace => workspace) parts world).2.1.sections = world.1.sections := by
  rw [publishSections_sections aside (fun sections _ => sections) fun _ _ => rfl]
  exact List.foldl_fixed _

def stampedBy (project : Project) (now : Timestamp) (workspace : Workspace) : Job → List String
  | .everything | .single _ => []
  | .templates paths => (rendered project now workspace (.templates paths)).map (·.1.id)

private theorem act_sections (now : Timestamp) (aside : project.analyzer.Aside) (job : Job) (world : World) :
    ((regenerator project).act job now world).2.1.sections =
      (stampedBy project now world.1 job).foldl (fun sections id => sections.markUpdated id now) world.1.sections := by
  have same : ((regenerator project).act job now world).2 = (act project now world job).2 := by
    simp only [regenerator]
    obtain ⟨answer, after⟩ := act project now world job
    cases answer <;> rfl
  rw [same]
  cases job with
  | single part =>
    have kept := Project.renderSection_sections now aside part world.1
    simp only [act, publishSection]
    generalize project.renderSection now part world.1 = result at kept ⊢
    obtain ⟨answer, workspace⟩ := result
    cases answer <;> exact kept
  | everything =>
    have kept := Project.renderOverview_sections now aside world.1
    simp only [act, publishAll]
    generalize project.renderOverview now world.1 = result at kept ⊢
    obtain ⟨answer, workspace⟩ := result
    cases answer with
    | error error => exact kept
    | ok document => exact (publishSections_untouched aside _ _).trans kept
  | templates paths =>
    have kept := compileAll_sections now paths world.1
    simp only [act, publishTemplates, stampedBy, rendered]
    generalize compileAll now paths world.1 = result at kept ⊢
    obtain ⟨answer, workspace⟩ := result
    change workspace.sections = world.1.sections at kept
    cases answer with
    | error error => exact kept
    | ok done =>
      dsimp only
      rw [publishSections_sections aside (fun sections part => sections.markUpdated part.id now) fun _ _ => rfl,
        ← kept, List.foldl_map, List.foldl_map]
      rfl

def stamped (project : Project) (attempt : Attempt Sync.Hub) : List String :=
  match attempt.job with
  | .everything => []
  | .single part => [part.id]
  | .templates paths => (rendered project attempt.ended attempt.world.1 (.templates paths)).map (·.1.id)

private theorem find?_leaves (aside : project.analyzer.Aside) {attempt : Attempt Sync.Hub}
    (done : attempt.outcome (regenerator project) = .done) (id : String) :
    (attempt.leaves (regenerator project)).find? id =
      if id ∈ stamped project attempt then (attempt.world.1.sections.find? id).map (·.stamped attempt.ended)
      else attempt.world.1.sections.find? id := by
  have left := act_sections attempt.ended aside attempt.job attempt.world
  cases job : attempt.job with
  | single part =>
    rw [Attempt.leaves_single _ job, if_pos done, Sections.find?_markUpdated, left, job, stamped, job]
    simp only [stampedBy, List.foldl_nil, List.mem_singleton, eq_comm]
  | everything =>
    rw [Attempt.leaves_other _ _ (by simp [job]), left, stamped, job]
    simp [stampedBy]
  | templates paths =>
    rw [Attempt.leaves_other _ _ (by simp [job]), left, stamped, job]
    exact Sections.find?_foldl_markUpdated _ _ _ id

end

/-! ### Whole batches -/

/-- What is published on behalf of a batch: sections with their documents, in the order in which they are handed
over. -/
def published (project : Project) (account : Account Sync.Hub) : List (Section × Document) :=
  account.log.attempts.flatMap fun attempt => rendered project attempt.ended attempt.world.1 attempt.job

private theorem regenerator_prompt (project : Project) : (regenerator project).Prompt :=
  fun _ _ _ => rfl

section
variable {project : Project} (aside : project.analyzer.Aside) {timely : Prop} {settings : Batch.Settings}
  {finished : Finished Sync.Hub} {operation : Operation}
  (records : finished.Records (regenerator project) timely settings operation) (succeeded : operation.failure = none)
include aside records succeeded

private theorem mem_published {part : Section} : part ∈ (published project finished.account).map (·.1) ↔
    ∃ attempt ∈ finished.account.log.attempts, part ∈ subjects project attempt.world.1.sections attempt.job := by
  have rendered (attempt : Attempt Sync.Hub) (member : attempt ∈ finished.account.log.attempts) :
      (rendered project attempt.ended attempt.world.1 attempt.job).map (·.1) =
        subjects project attempt.world.1.sections attempt.job :=
    rendered_of_done aside ((records.ending.done succeeded).2 attempt member)
  rw [published, List.map_flatMap, List.mem_flatMap]
  constructor
  · rintro ⟨attempt, member, here⟩
    exact ⟨attempt, member, rendered attempt member ▸ here⟩
  · rintro ⟨attempt, member, here⟩
    exact ⟨attempt, member, (rendered attempt member).symm ▸ here⟩

/-- The sections of a plan that are published. -/
theorem published_iff {part : Section} (affected : part ∈ finished.account.plan.sections) :
    part ∈ (published project finished.account).map (·.1) ↔
      operation.strategy = .full ∨ operation.strategy = .sections ∨
        operation.strategy = .templates ∧ finished.account.plan.templates.any (usesTemplate project · part) := by
  have registered : part ∈ finished.account.sections.all := by
    rw [records.matched] at affected
    exact List.mem_of_mem_filter affected
  have prompt := regenerator_prompt project
  rw [mem_published aside records succeeded]
  cases strategy : operation.strategy with
  | full =>
    have jobs : finished.account.plan.jobs = [.everything] := by rw [Plan.jobs, ← records.strategy, strategy]
    obtain ⟨attempt, alone, job, -, met, -⟩ :=
      records.ending.whole prompt succeeded jobs (by simp [← records.strategy, strategy])
    simp [alone, job, met, subjects, registered]
  | sections =>
    have jobs : finished.account.plan.jobs = finished.account.plan.sections.map .single := by
      rw [Plan.jobs, ← records.strategy, strategy]
    have asked : .single part ∈ finished.account.log.attempts.map (·.job) := by
      rw [(records.ending.done succeeded).1, jobs]
      exact List.mem_map_of_mem affected
    obtain ⟨attempt, member, job⟩ := List.mem_map.mp asked
    simp only [reduceCtorEq, false_or, true_or, iff_true]
    exact ⟨attempt, member, by simp [job, subjects]⟩
  | templates =>
    have jobs : finished.account.plan.jobs = [.templates finished.account.plan.templates] := by
      rw [Plan.jobs, ← records.strategy, strategy]
    obtain ⟨attempt, alone, job, -, met, -⟩ :=
      records.ending.whole prompt succeeded jobs (by simp [← records.strategy, strategy])
    simp [alone, job, met, subjects, Publisher.affected, registered]
  | incremental =>
    have jobs : finished.account.plan.jobs = [] := by rw [Plan.jobs, ← records.strategy, strategy]
    have none : finished.account.log.attempts = [] := by
      simpa [jobs] using (records.ending.done succeeded).1
    simp [none]

/-- Whatever a section update or a template refresh publishes is stamped while it runs. -/
theorem stamped_of_published (strategy : operation.strategy = .sections ∨ operation.strategy = .templates)
    {rendering : Section × Document} (member : rendering ∈ published project finished.account)
    (spared : finished.account.log.Spares rendering.1.id) {part : Section}
    (registered : finished.machine.workspace.sections.find? rendering.1.id = some part) :
    ∃ time, part.lastUpdated = some time ∧ operation.startedAt ≤ time ∧ time ≤ operation.completedAt := by
  obtain ⟨jobs, well⟩ := records.ending.done succeeded
  obtain ⟨attempt, done, here⟩ := List.mem_flatMap.mp member
  have marked : rendering.1.id ∈ stamped project attempt := by
    have asked : attempt.job ∈ finished.account.plan.jobs := jobs ▸ List.mem_map_of_mem done
    rw [stamped]
    cases job : attempt.job with
    | single part =>
      have same : rendering.1 ∈ subjects project attempt.world.1.sections (.single part) := by
        rw [← job, ← rendered_of_done aside (well attempt done)]
        exact List.mem_map_of_mem here
      rw [List.mem_singleton.mp same]
      exact List.mem_singleton.mpr rfl
    | templates paths =>
      rw [job] at here
      exact List.mem_map_of_mem here
    | everything =>
      rw [job, Plan.jobs, ← records.strategy] at asked
      rcases strategy with strategy | strategy <;> simp [strategy] at asked
  obtain ⟨next, course⟩ := records.ending.course
  have found := course.find?_eq (fun attempt => rendering.1.id ∈ stamped project attempt) spared
    (fun attempt member mark => by rw [find?_leaves aside (well attempt (Account.mem_attempts.mpr member)), if_pos mark])
    (fun attempt member mark => by rw [find?_leaves aside (well attempt (Account.mem_attempts.mpr member)), if_neg mark])
  rcases found with ⟨-, none⟩ | ⟨last, within, -, found⟩
  · exact absurd marked (none attempt (Account.mem_attempts.mp done))
  · rw [registered] at found
    obtain ⟨old, -, rfl⟩ := Option.map_eq_some_iff.mp found.symm
    obtain ⟨begun, called, -⟩ := course.times.2 last within
    refine ⟨last.ended, rfl, ?_, records.ending.ended last (Account.mem_attempts.mpr within)⟩
    rw [records.startedAt]
    exact Int.le_trans begun called

/-- A full regeneration publishes all registered sections, and leaves them as they were. -/
theorem unstamped_of_full (strategy : operation.strategy = .full) :
    (published project finished.account).map (·.1) = finished.account.sections.all ∧
      finished.machine.workspace.sections = finished.account.sections := by
  have jobs : finished.account.plan.jobs = [.everything] := by rw [Plan.jobs, ← records.strategy, strategy]
  obtain ⟨attempt, alone, job, done, met, left⟩ :=
    records.ending.whole (regenerator_prompt project) succeeded jobs (by simp [← records.strategy, strategy])
  constructor
  · rw [published, alone, List.flatMap_singleton, rendered_of_done aside done, job, met]
    rfl
  · rw [left, Attempt.leaves_other _ _ (by simp [job]), act_sections _ aside, job, met]
    rfl

end

/-- Of every operation that succeeded, what was published and what was stamped meanwhile. Section updates and template
refreshes stamp what they publish, as long as nobody else registers it again or removes it meanwhile, and nobody can
while templates are refreshed. A full regeneration publishes all sections and stamps none. An incremental update
publishes nothing. -/
theorem run_stamps_published (settings : Batch.Settings) {project : Project} (aside : project.analyzer.Aside)
    (workspace : Workspace) (hub : Sync.Hub) (moves : List (Timestamp × Move Sync.Hub)) :
    let fresh : Machine Sync.Hub := { scheduler := .new settings, workspace, own := hub }
    let chronicle := (Chronicle.fresh settings workspace hub).run (regenerator project) moves
    chronicle.machine = fresh.play (regenerator project) moves ∧
    List.Forall₂
      (fun finished operation => operation.failure = none →
        (operation.strategy = .sections ∨ operation.strategy = .templates →
          ∀ rendering ∈ published project finished.account, finished.account.log.Spares rendering.1.id → ∀ part,
            finished.machine.workspace.sections.find? rendering.1.id = some part →
              ∃ time, part.lastUpdated = some time ∧ operation.startedAt ≤ time ∧ time ≤ operation.completedAt) ∧
        (operation.strategy ≠ .sections → ∀ id, finished.account.log.Spares id) ∧
        (operation.strategy = .full → (published project finished.account).map (·.1) = finished.account.sections.all ∧
          finished.machine.workspace.sections = finished.account.sections) ∧
        (operation.strategy = .incremental → published project finished.account = []))
      chronicle.finished chronicle.machine.scheduler.operations := by
  intro fresh chronicle
  have sound : chronicle.Sound (regenerator project) False settings :=
    Chronicle.run_sound (Chronicle.fresh_sound settings workspace hub) moves nofun
  refine ⟨Chronicle.machine_run _ _ moves, sound.operations.imp fun finished operation records succeeded => ?_⟩
  refine ⟨fun strategy _ member spared part => stamped_of_published aside records succeeded strategy member spared,
    fun strategy => records.ending.spares (regenerator_prompt project) (records.strategy ▸ strategy),
    unstamped_of_full aside records succeeded, fun strategy => ?_⟩
  have none : finished.account.log.attempts = [] := by
    simpa [Plan.jobs, ← records.strategy, strategy] using (records.ending.done succeeded).1
  rw [published, none, List.flatMap_nil]

theorem sharing_stamps_published :
    let chronicle := (Chronicle.fresh {} (sharing ["b", "a"]) { settings := {} }).run (regenerator site)
      (applying ["x"] [100])
    ∃ finished operation, chronicle.finished = [finished] ∧ chronicle.machine.scheduler.operations = [operation] ∧
      operation.failure = none ∧ operation.strategy = .sections ∧
      (published site finished.account).map (·.1.id) = ["a", "b"] ∧
      (finished.machine.workspace.sections.all.map fun part => (part.id, part.lastUpdated)) =
        [("a", some (atMillis 0)), ("b", some (atMillis 100))] ∧
      ∀ rendering ∈ published site finished.account, ∀ part,
        finished.machine.workspace.sections.find? rendering.1.id = some part →
          ∃ time, part.lastUpdated = some time ∧ operation.startedAt ≤ time ∧ time ≤ operation.completedAt := by
  intro chronicle
  have told : chronicle.machine.scheduler.operations.map (fun operation => (operation.strategy, operation.failure)) =
      [(.sections, none)] := by decide +kernel
  have facts : chronicle.finished.map (fun finished => ((published site finished.account).map (·.1.id),
        finished.machine.workspace.sections.all.map fun part => (part.id, part.lastUpdated),
        finished.account.log.incidents.all (·.attempt?.isSome))) =
      [(["a", "b"], [("a", some (atMillis 0)), ("b", some (atMillis 100))], true)] := by decide +kernel
  obtain ⟨-, accounts⟩ := @run_stamps_published {} site Analyzer.stats_aside (sharing ["b", "a"])
    { settings := {} } (applying ["x"] [100])
  obtain ⟨operation, alone, recorded⟩ := List.map_eq_singleton_iff.mp told
  obtain ⟨finished, only, seen⟩ := List.map_eq_singleton_iff.mp facts
  have strategy : operation.strategy = .sections := congrArg Prod.fst recorded
  have succeeded : operation.failure = none := congrArg Prod.snd recorded
  have attempts : finished.account.log.incidents.all (·.attempt?.isSome) = true := congrArg (·.2.2) seen
  have spared (id : String) : finished.account.log.Spares id := by
    intro before after member
    cases List.all_eq_true.mp attempts _ member
  rw [alone] at accounts
  obtain ⟨other, rest, stamps, others, same⟩ := List.forall₂_cons_right_iff.mp accounts
  cases only.symm.trans same
  refine ⟨finished, operation, only, alone, succeeded, strategy, congrArg (·.1) seen, congrArg (·.2.1) seen, ?_⟩
  exact fun rendering member => (stamps succeeded).1 (.inl strategy) rendering member (spared _)

/-- More files change than an incremental update is for: the only section is published and has no stamp. -/
theorem full_leaves_unstamped :
    ∃ engine, Engine.start .epoch (.empty []) { root := ⟨"/"⟩, background := false } = .ok engine ∧
      let changes := (List.range 11).map fun number =>
        { path := ⟨"x" ++ toString number⟩, kind := .modified, timestamp := .epoch }
      let after := engine.run [.register { id := "a" }, .submit changes, .flush]
      after.scheduler.history.operations.map (fun operation => (operation.strategy, operation.failure)) = [(.full, none)] ∧
      after.hub.queue.map (fun revision => (revision.scope, revision.path)) =
        [(.project, "docs/index.md"), (.file, "docs/a.md")] ∧
      after.workspace.sections.all.map (fun part => (part.id, part.lastUpdated)) = [("a", none)] :=
  ⟨_, rfl, by decide +kernel⟩

/-- Of every operation that succeeded, which of the sections that it says it affected were published: all of them by full
regenerations and section updates, those that are made with a changed template by template refreshes, and none by
incremental updates. What is published is handed to the hub. -/
theorem run_publishes_affected (settings : Batch.Settings) {project : Project} (aside : project.analyzer.Aside)
    (workspace : Workspace) (hub : Sync.Hub) (moves : List (Timestamp × Move Sync.Hub)) :
    let fresh : Machine Sync.Hub := { scheduler := .new settings, workspace, own := hub }
    let chronicle := (Chronicle.fresh settings workspace hub).run (regenerator project) moves
    chronicle.machine = fresh.play (regenerator project) moves ∧
    List.Forall₂
      (fun finished operation => operation.failure = none →
        operation.sections = finished.account.plan.sections.map (·.id) ∧
        (∀ part ∈ finished.account.plan.sections, part ∈ (published project finished.account).map (·.1) ↔
          operation.strategy = .full ∨ operation.strategy = .sections ∨
            operation.strategy = .templates ∧ finished.account.plan.templates.any (usesTemplate project · part)) ∧
        ∀ attempt ∈ finished.account.log.attempts,
          ((regenerator project).act attempt.job attempt.ended attempt.world).2.2 =
            handOver attempt.ended (documents project attempt.ended attempt.world.1 attempt.job) attempt.world.2)
      chronicle.finished chronicle.machine.scheduler.operations := by
  intro fresh chronicle
  have sound : chronicle.Sound (regenerator project) False settings :=
    Chronicle.run_sound (Chronicle.fresh_sound settings workspace hub) moves nofun
  refine ⟨Chronicle.machine_run _ _ moves, sound.operations.imp fun finished operation records succeeded => ?_⟩
  exact ⟨records.sections, fun part affected => published_iff aside records succeeded affected,
    fun attempt _ => act_hub attempt.job attempt.world⟩

theorem sharing_publishes_affected :
    let chronicle := (Chronicle.fresh {} (sharing ["a", "b", "c", "d", "e"]) { settings := {} }).run (regenerator site)
      (applying ["x"] [])
    ∃ finished operation, chronicle.finished = [finished] ∧ chronicle.machine.scheduler.operations = [operation] ∧
      operation.failure = none ∧ operation.strategy = .incremental ∧ operation.sections = ["a", "b", "c", "d", "e"] ∧
      ∀ part ∈ finished.account.plan.sections, part ∉ (published site finished.account).map (·.1) := by
  intro chronicle
  have told : chronicle.machine.scheduler.operations.map
      (fun operation => (operation.strategy, operation.failure, operation.sections)) =
      [(.incremental, none, ["a", "b", "c", "d", "e"])] := by decide +kernel
  obtain ⟨-, accounts⟩ := @run_publishes_affected {} site Analyzer.stats_aside
    (sharing ["a", "b", "c", "d", "e"]) { settings := {} } (applying ["x"] [])
  obtain ⟨operation, alone, recorded⟩ := List.map_eq_singleton_iff.mp told
  have strategy : operation.strategy = .incremental := congrArg (·.1) recorded
  have succeeded : operation.failure = none := congrArg (·.2.1) recorded
  rw [alone] at accounts
  obtain ⟨finished, rest, publishes, others, same⟩ := List.forall₂_cons_right_iff.mp accounts
  cases others
  refine ⟨finished, operation, same, alone, succeeded, strategy, congrArg (·.2.2) recorded, fun part affected => ?_⟩
  simpa [strategy] using (publishes succeeded).2.1 part affected

/-- A change affects more sections than section updates are for: the operation names them all, and nothing is handed
over. -/
theorem incremental_publishes_nothing :
    ∃ engine, Engine.start .epoch (.empty []) { root := ⟨"/"⟩, background := false } = .ok engine ∧
      let ids := ["a", "b", "c", "d", "e"]
      let sections := ids.map fun id => .register { id, files := .ofList ["x"] }
      let after := engine.run (sections ++ [.submit [{ path := ⟨"x"⟩, kind := .modified, timestamp := .epoch }], .flush])
      after.scheduler.history.operations.map (fun operation => (operation.strategy, operation.failure, operation.sections)) =
        [(.incremental, none, ids)] ∧
      after.hub.queue.length = 0 ∧ after.hub.notices = [] ∧
      after.workspace.sections.all.map (fun part => (part.id, part.lastUpdated)) = ids.map (·, none) :=
  ⟨_, rfl, by decide +kernel⟩

end Publisher
end FreshDocs
