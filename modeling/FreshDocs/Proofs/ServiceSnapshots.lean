import FreshDocs.Proofs.ServiceRuns
import FreshDocs.Proofs.SnapshotCoverage

/-! Which snapshots are found in the course of a run. Each was made at some moment, of the files that
there were then. Changes that are handed in later come to be applied in batches, and no batch lets a
snapshot pass that misses one of them, whatever else the batch does and however it ends. -/

namespace FreshDocs

theorem Snapshots.misses_eq_false {paths : List String} {key : String} {snapshot : Snapshot} :
    misses paths key snapshot = false ↔
      ∀ path ∈ paths, (Path.mk path).isWithin ⟨key⟩ = true → path ∈ snapshot.manifest := by
  simp [misses]

namespace Batch

theorem Plan.mem_mentioned_append {first second : List Change} {key : String} :
    key ∈ mentioned (first ++ second) ↔ key ∈ mentioned first ∨ key ∈ mentioned second := by
  simp only [mem_mentioned, List.mem_append, or_and_right, exists_or]

namespace Machine
open Artifacts (Narrows)

/-- What a batch drops from the stores it does not put back. -/
theorem invalidate_narrows (now : Timestamp) (settings : Settings) (plan : Plan) (workspace : Workspace) :
    workspace.artifacts.Narrows (invalidate now settings plan workspace).artifacts := by
  have removed (paths : List Path) (cache : Artifacts) :
      cache.Narrows (paths.foldl (fun cache path => (cache.remove path).2) cache) := by
    induction paths generalizing cache with
    | nil => exact .refl cache
    | cons path rest ih => exact (Narrows.remove cache path).trans (ih _)
  have first := removed (plan.removed.map Path.mk) workspace.artifacts
  simp only [invalidate]
  cases plan.strategy with
  | full => exact first.trans (.clear _)
  | templates => exact (first.trans (.invalidateTemplates _ _)).trans (.invalidateAll _ _)
  | sections => exact first.trans (.invalidateAll _ _)
  | incremental => exact first.trans (.invalidateAll _ _)

private theorem invalidate_thins (now : Timestamp) (settings : Settings) (plan : Plan) (workspace : Workspace) :
    Snapshots.Thins (workspace.snapshots.invalidateUncovered now plan.changed).2
      (invalidate now settings plan workspace).snapshots := by
  simp only [invalidate]
  cases plan.strategy with
  | full => exact .clear _
  | templates | sections | incremental => exact .refl _

end Machine
end Batch

namespace Service
open Batch

variable {σ : Type}

/-- All parts of a service depend on nothing but what they are said to depend on. -/
structure Sound (service : Service σ) : Prop where
  analyzes : service.project.analyzer.Pure
  aggregates : service.project.analyzer.Aggregates
  compiles : service.compiler.Pure
  asks : service.regenerator.Asks service.project service.compiler

/-- What holds of a workspace when some changes have been applied. A moment is told by the files that
there were and by the number of changes that had been handed in. -/
structure Lasting (service : Service σ) (seen : ByteArray → Prop) (moment : Files → Nat → Prop) (ttl : Nat) (now : Timestamp)
    (executed : List Change) (workspace : Workspace) : Prop where
  genuine : workspace.Genuine service.project.analyzer service.compiler seen
  limit : workspace.snapshots.store.limits.ttl = ttl
  coherent : workspace.snapshots.store.Coherent
  covered : ∀ key entry, workspace.snapshots.store.find? key = some entry →
    ∃ files count, moment files count ∧ service.project.Made files key entry.value ∧
      (Timestamp.olderThan ttl entry.storedAt now = false →
        Snapshots.misses (Plan.mentioned (executed.drop count)) key entry.value = false)

section
variable {service : Service σ} {seen : ByteArray → Prop} {moment : Files → Nat → Prop} {ttl : Nat} {now : Timestamp}
  {executed : List Change} {workspace : Workspace}

namespace Lasting

theorem request (sound : service.Sound) (apart : Project.Apart seen) (lasting : service.Lasting seen moment ttl now executed workspace)
    {count : Nat} (here : moment workspace.files count) (few : executed.length ≤ count) (time : Timestamp)
    (request : Project.Request)
    (covers : ∀ files, request = .alter files → ∀ path content, files.read path = .ok content → seen content) :
    service.Lasting seen moment ttl now executed (request.apply service.project service.compiler time workspace) := by
  have renews := Project.apply_renews sound.analyzes sound.aggregates apart lasting.genuine time request
  refine ⟨?_, ?_, lasting.coherent.steps renews.steps, ?_⟩
  · exact Project.apply_genuine sound.analyzes sound.compiles apart lasting.genuine time request covers
  · rw [renews.limits, lasting.limit]
  · intro key entry found
    rcases renews.entries key entry found with ⟨tick, older⟩ | made
    · exact lasting.covered key { entry with tick } older
    · refine ⟨workspace.files, count, here, made, fun _ => ?_⟩
      -- Nothing that was handed in later has been applied yet.
      rw [List.drop_eq_nil_of_le few]
      rfl

theorem stamp (lasting : service.Lasting seen moment ttl now executed workspace) (sections : Sections) :
    service.Lasting seen moment ttl now executed { workspace with sections } :=
  ⟨lasting.genuine.narrow (.refl _) rfl, lasting.limit, lasting.coherent, lasting.covered⟩

/-- A batch lets no snapshot pass that misses one of its changes. -/
theorem invalidate (lasting : service.Lasting seen moment ttl now executed workspace) {time : Timestamp} (timely : time ≤ now)
    (settings : Batch.Settings) (cached : Nat) (sections : Sections) (changes : List Change) :
    service.Lasting seen moment ttl now (executed ++ changes)
      (Machine.invalidate time settings (.ofChanges settings cached sections changes) workspace) := by
  have dropped := Snapshots.Thins.dropMissing time (Plan.mentioned changes) workspace.snapshots.store.keys workspace.snapshots
  have left := Machine.invalidate_thins time settings (.ofChanges settings cached sections changes) workspace
  have thins := dropped.trans left
  refine ⟨?_, ?_, lasting.coherent.steps thins.steps, ?_⟩
  · exact lasting.genuine.narrow (Machine.invalidate_narrows _ _ _ _) rfl
  · rw [thins.retains.limits, lasting.limit]
  · intro key entry found
    obtain ⟨tick, older⟩ := thins.retains.entries key entry found
    obtain ⟨files, count, known, made, covered⟩ := lasting.covered key { entry with tick } older
    refine ⟨files, count, known, made, fun fresh => ?_⟩
    obtain ⟨place, passed⟩ := left.retains.entries key entry found
    have young : workspace.snapshots.store.isExpired now { entry with tick := place } = false := by
      rw [Store.isExpired, lasting.limit]
      exact fresh
    have new := Snapshots.invalidateUncovered_covers lasting.coherent passed (Store.isExpired_mono timely young)
    have old := covered fresh
    rw [Snapshots.misses_eq_false] at new old ⊢
    intro path mentioned within
    rw [List.drop_append, Plan.mem_mentioned_append] at mentioned
    rcases mentioned with before | after
    · exact old path before within
    · have among : path ∈ Plan.mentioned changes := by
        obtain ⟨change, member, named⟩ := Plan.mem_mentioned.mp after
        exact Plan.mem_mentioned.mpr ⟨change, List.mem_of_mem_drop member, named⟩
      exact new path among within

end Lasting

/-- Batches keep what holds of the snapshots while no more changes are handed in. -/
theorem carries (sound : service.Sound) (apart : Project.Apart seen) {files : Files} {handed : List Change}
    (here : moment files handed.length) : service.regenerator.Carries handed now fun executed workspace =>
      service.Lasting seen moment ttl now executed workspace ∧ workspace.files = files := by
  refine ⟨fun executed within => sound.asks.keeps ?_ ?_, ?_⟩
  · rintro time request workspace steady ⟨lasting, rfl⟩
    refine ⟨lasting.request sound apart here within.length_le time request fun files same => (steady files same).elim, ?_⟩
    exact Project.apply_files sound.analyzes _ time workspace steady
  · rintro workspace sections ⟨lasting, same⟩
    exact ⟨lasting.stamp sections, same⟩
  · rintro executed workspace time timely ⟨lasting, same⟩ settings cached sections changes
    exact ⟨lasting.invalidate timely settings cached sections changes, same⟩

/-- A happening is over by a time. -/
def Happening.Timely (now : Timestamp) : Timestamp × Happening σ → Prop
  | (time, .advance target) => time ≤ now ∧ target ≤ now
  | (time, _) => time ≤ now

private theorem step_lasting (sound : service.Sound) (apart : Project.Apart seen) {trace : Trace σ} (aligned : trace.Aligned)
    (lasting : service.Lasting seen moment ttl now trace.executed trace.machine.workspace)
    (here : moment trace.machine.workspace.files trace.handed.length) {time : Timestamp} {happening : Happening σ}
    (timely : Happening.Timely now (time, happening))
    (covers : ∀ files, happening = .ask (.alter files) → ∀ path content, files.read path = .ok content → seen content) :
    let after := trace.step service.regenerator time (service.action time trace.machine happening)
    service.Lasting seen moment ttl now after.executed after.machine.workspace := by
  let holds (executed : List Change) (workspace : Workspace) :=
    service.Lasting seen moment ttl now executed workspace ∧ workspace.files = trace.machine.workspace.files
  have carried : trace.Carried trace.handed holds := ⟨aligned, rfl, lasting, rfl⟩
  have carries : service.regenerator.Carries trace.handed now holds := carries sound apart here
  have received (answer : Except Scheduler.Error Scheduler) :
      service.Lasting seen moment ttl now trace.executed (trace.machine.receive answer).workspace := by
    cases answer <;> exact lasting
  cases happening with
  | ask request =>
    refine lasting.request sound apart here trace.executed_prefix.length_le time request ?_
    rintro files rfl
    exact covers files rfl
  | arrange sections own => exact lasting.stamp sections
  | submit | flush | shutdown | hangUp => exact received _
  | turn kind => exact (Trace.turn_carried carries timely carried kind).holds.1
  | settle => exact (Trace.settle_carried carries timely carried).holds.1
  | advance target => exact (Trace.advance_carried carries timely.2 carried).holds.1

/-- Snapshots last through a run whose moments are all told. -/
theorem trail_lasting (sound : service.Sound) (apart : Project.Apart seen) {happenings : List (Timestamp × Happening σ)}
    {trace : Trace σ} (aligned : trace.Aligned)
    (lasting : service.Lasting seen moment ttl now trace.executed trace.machine.workspace)
    (moments : ∀ before after, happenings = before ++ after →
      moment (service.trail trace before).machine.workspace.files (service.trail trace before).handed.length)
    (timely : ∀ entry ∈ happenings, Happening.Timely now entry)
    (covers : ∀ time files, (time, .ask (.alter files)) ∈ happenings → ∀ path content, files.read path = .ok content → seen content) :
    service.Lasting seen moment ttl now (service.trail trace happenings).executed
      (service.trail trace happenings).machine.workspace := by
  induction happenings generalizing trace with
  | nil => exact lasting
  | cons entry rest ih =>
    obtain ⟨time, happening⟩ := entry
    have stepped := Trace.step_goes service.regenerator time aligned (service.action time trace.machine happening)
    have kept := step_lasting sound apart aligned lasting (moments [] _ rfl) (timely _ List.mem_cons_self)
      fun files same => covers time files (same ▸ List.mem_cons_self)
    refine ih stepped.aligned kept ?_ ?_ ?_
    · intro before after split
      exact moments ((time, happening) :: before) after (congrArg _ split)
    · exact fun entry member => timely entry (List.mem_cons_of_mem _ member)
    · exact fun time files member => covers time files (List.mem_cons_of_mem _ member)

end

end Service
end FreshDocs
