import FreshDocs.Proofs.BatchInvalidation
import FreshDocs.Proofs.BatchStores
import FreshDocs.Proofs.SnapshotAnswers
import FreshDocs.Publisher

/-! A project together with the scheduler of its changes. Whatever happens to them, a snapshot that is
found was made at some moment of the run, and it misses none of the changes that were handed in and
applied since then, unless it has expired. -/

namespace FreshDocs
open Relation

/-! ### What regenerators ask for -/

/-- What becomes of a workspace by a request that alters no files, or by a stamp on a section. -/
inductive Project.Asked (project : Project) (compiler : Compiler) (now : Timestamp) : Workspace → Workspace → Prop where
  | request (workspace : Workspace) (request : Request) (steady : ∀ files, request ≠ .alter files) :
      Asked project compiler now workspace (request.apply project compiler now workspace)
  | stamp (workspace : Workspace) (sections : Sections) : Asked project compiler now workspace { workspace with sections }

def Batch.Regenerator.Asks {σ : Type} (regenerator : Regenerator σ) (project : Project) (compiler : Compiler) : Prop :=
  ∀ (job : Job) (now : Timestamp) (world : Workspace × σ),
    ReflTransGen (project.Asked compiler now) world.1 (regenerator.act job now world).2.1

theorem Batch.Regenerator.Asks.keeps {σ : Type} {regenerator : Regenerator σ} {project : Project} {compiler : Compiler}
    (asks : regenerator.Asks project compiler) {holds : Workspace → Prop}
    (requests : ∀ (now : Timestamp) (request : Project.Request) (workspace : Workspace), (∀ files, request ≠ .alter files) →
      holds workspace → holds (request.apply project compiler now workspace))
    (stamps : ∀ (workspace : Workspace) (sections : Sections), holds workspace → holds { workspace with sections }) :
    regenerator.Keeps holds := by
  refine ⟨fun job now world held => ?_, fun workspace id now held => stamps workspace _ held⟩
  have path := asks job now world
  generalize (regenerator.act job now world).2.1 = last at path
  induction path with
  | refl => exact held
  | tail _ step ih =>
    cases step with
    | request request steady => exact requests now request _ steady ih
    | stamp sections => exact stamps _ sections ih

namespace Publisher

section
variable (project : Project) (now : Timestamp)

private theorem publishSection_asked (part : Section) (world : World) :
    ReflTransGen (project.Asked Markdown.compile now) world.1 (publishSection project now part world).2.1 := by
  have asked : ReflTransGen (project.Asked Markdown.compile now) world.1 (project.renderSection now part world.1).2 :=
    .single (.request world.1 (.renderSection part) (by simp))
  simp only [publishSection]
  generalize project.renderSection now part world.1 = result at asked ⊢
  obtain ⟨answer, after⟩ := result
  cases answer <;> exact asked

private theorem publishSections_asked {published : Section → Workspace → Workspace}
    (stamps : ∀ part workspace, ReflTransGen (project.Asked Markdown.compile now) workspace (published part workspace))
    (parts : List Section) (world : World) :
    ReflTransGen (project.Asked Markdown.compile now) world.1 (publishSections project now published parts world).2.1 := by
  induction parts generalizing world with
  | nil => exact .refl
  | cons part rest ih =>
    have asked := publishSection_asked project now part world
    rw [publishSections]
    generalize publishSection project now part world = result at asked ⊢
    obtain ⟨answer, workspace, hub⟩ := result
    cases answer with
    | error error => exact asked
    | ok done => exact (asked.trans (stamps part workspace)).trans (ih (published part workspace, hub))

private theorem publishAll_asked (world : World) :
    ReflTransGen (project.Asked Markdown.compile now) world.1 (publishAll project now world).2.1 := by
  have asked : ReflTransGen (project.Asked Markdown.compile now) world.1 (project.renderOverview now world.1).2 :=
    .single (.request world.1 (.snapshot project.root) (by simp))
  simp only [publishAll]
  generalize project.renderOverview now world.1 = result at asked ⊢
  obtain ⟨answer, workspace⟩ := result
  cases answer with
  | error error => exact asked
  | ok document =>
    exact asked.trans (publishSections_asked project now (fun _ _ => .refl) workspace.sections.all
      (workspace, publish now .project document world.2))

private theorem compileAll_asked (paths : List String) (workspace : Workspace) :
    ReflTransGen (project.Asked Markdown.compile now) workspace (compileAll now paths workspace).2 := by
  induction paths generalizing workspace with
  | nil => exact .refl
  | cons path rest ih =>
    have asked : ReflTransGen (project.Asked Markdown.compile now) workspace (Project.template now ⟨path⟩ workspace).2 :=
      .single (.request workspace (.template ⟨path⟩) (by simp))
    rw [compileAll]
    generalize Project.template now ⟨path⟩ workspace = result at asked ⊢
    obtain ⟨answer, after⟩ := result
    cases answer with
    | error error => exact asked
    | ok template => exact asked.trans (ih after)

private theorem publishTemplates_asked (templates : List String) (world : World) :
    ReflTransGen (project.Asked Markdown.compile now) world.1 (publishTemplates project now templates world).2.1 := by
  have asked := compileAll_asked project now templates world.1
  simp only [publishTemplates]
  generalize compileAll now templates world.1 = result at asked ⊢
  obtain ⟨answer, workspace⟩ := result
  cases answer with
  | error error => exact asked
  | ok done =>
    have stamps (part : Section) (workspace : Workspace) :
        ReflTransGen (project.Asked Markdown.compile now) workspace (stamp now part workspace) :=
      .single (.stamp workspace _)
    exact asked.trans (publishSections_asked project now stamps _ (workspace, world.2))

end

/-- A publisher asks a project for documents and templates, and stamps the sections that are made anew. -/
theorem regenerator_asks (project : Project) : (regenerator project).Asks project Markdown.compile := by
  intro job now world
  have acted : ReflTransGen (project.Asked Markdown.compile now) world.1 (act project now world job).2.1 := by
    cases job with
    | everything => exact publishAll_asked project now world
    | single part => exact publishSection_asked project now part world
    | templates paths => exact publishTemplates_asked project now paths world
  simp only [regenerator]
  generalize act project now world job = result at acted ⊢
  obtain ⟨answer, after⟩ := result
  cases answer <;> exact acted

end Publisher

/-! ### Runs -/

/-- A project with a scheduler: how its templates are compiled, and what makes its documents anew. -/
structure Service (σ : Type) where
  project : Project
  compiler : Compiler
  regenerator : Batch.Regenerator σ

namespace Service
open Batch

variable {σ : Type}

inductive Happening (σ : Type) where
  | ask (request : Project.Request)
  /-- Sections are registered or removed, and others work on what the regenerator has of its own. -/
  | arrange (sections : Sections) (own : σ)
  /-- Changes are reported, as seen from the root. -/
  | submit (changes : List Change)
  | flush
  | shutdown
  | hangUp
  | turn (kind : Machine.Turn)
  | settle
  /-- The clock runs to a time. -/
  | advance (target : Timestamp)

def action (service : Service σ) (now : Timestamp) (machine : Machine σ) : Happening σ → Action σ
  | .ask request => .alter (request.apply service.project service.compiler now machine.workspace) machine.own
  | .arrange sections own => .alter { machine.workspace with sections } own
  | .submit changes => .submit (changes.map (Change.resolve service.project.root))
  | .flush => .flush
  | .shutdown => .shutdown
  | .hangUp => .hangUp
  | .turn kind => .turn kind
  | .settle => .settle
  | .advance target => .advance target

def run (service : Service σ) (machine : Machine σ) : List (Timestamp × Happening σ) → Machine σ
  | [] => machine
  | (now, happening) :: rest =>
    service.run ((service.action now machine happening).apply service.regenerator now machine) rest

def trail (service : Service σ) (trace : Trace σ) : List (Timestamp × Happening σ) → Trace σ
  | [] => trace
  | (now, happening) :: rest =>
    service.trail (trace.step service.regenerator now (service.action now trace.machine happening)) rest

section
variable (service : Service σ)

theorem machine_trail (trace : Trace σ) (happenings : List (Timestamp × Happening σ)) :
    (service.trail trace happenings).machine = service.run trace.machine happenings := by
  induction happenings generalizing trace with
  | nil => rfl
  | cons entry rest ih => rw [trail, ih, Trace.machine_step, run]

theorem trail_append (trace : Trace σ) (first second : List (Timestamp × Happening σ)) :
    service.trail trace (first ++ second) = service.trail (service.trail trace first) second := by
  induction first generalizing trace with
  | nil => rfl
  | cons entry rest ih => exact ih _

theorem trail_goes {trace : Trace σ} (aligned : trace.Aligned) (happenings : List (Timestamp × Happening σ)) :
    ∃ changes ends, Trace.Goes changes ends trace (service.trail trace happenings) := by
  induction happenings generalizing trace with
  | nil => exact ⟨[], false, aligned.follows.goes⟩
  | cons entry rest ih =>
    have first := Trace.step_goes service.regenerator entry.1 aligned (service.action entry.1 trace.machine entry.2)
    obtain ⟨changes, ends, later⟩ := ih first.aligned
    exact ⟨_, _, first.trans later⟩

theorem submit_goes {trace : Trace σ} (aligned : trace.Aligned) (time : Timestamp) (changes : List Change)
    (happenings : List (Timestamp × Happening σ)) :
    ∃ more ends, Trace.Goes (changes.map (Change.resolve service.project.root) ++ more) ends trace
      (service.trail trace ((time, .submit changes) :: happenings)) := by
  have reported := Trace.step_goes service.regenerator time aligned (.submit (changes.map (Change.resolve service.project.root)))
  obtain ⟨more, ends, later⟩ := service.trail_goes reported.aligned happenings
  exact ⟨more, _, reported.trans later⟩

/-- What was reported before a flush has been applied when the flush is answered. -/
theorem applied_of_flush {trace : Trace σ} (aligned : trace.Aligned) (fresh : trace.Fresh) {time later : Timestamp}
    {changes : List Change} {before middle after : List (Timestamp × Happening σ)} {ticket : Ticket}
    (asked : (Action.flush : Action σ).ticket?
      (service.trail trace (before ++ (time, .submit changes) :: middle)).machine.scheduler = some ticket)
    (answered : ticket ∈ (service.trail trace
      (before ++ (time, .submit changes) :: middle ++ (later, .flush) :: after)).machine.scheduler.acknowledged) :
    (service.trail trace before).handed ++ changes.map (Change.resolve service.project.root) <+:
      (service.trail trace (before ++ (time, .submit changes) :: middle ++ (later, .flush) :: after)).executed := by
  obtain ⟨_, _, first⟩ := service.trail_goes aligned before
  obtain ⟨_, _, gone⟩ := service.submit_goes first.aligned time changes middle
  rw [trail_append] at asked
  rw [trail_append, trail_append] at answered ⊢
  generalize service.trail (service.trail trace before) ((time, .submit changes) :: middle) = reached at asked answered gone ⊢
  have ready : reached.machine.scheduler.ending = false →
      (service.trail trace before).handed ++ changes.map (Change.resolve service.project.root) <+: reached.handed := by
    intro going
    have taken : (service.trail trace before).machine.scheduler.ending = false :=
      (Bool.or_eq_false_iff.mp (gone.ending.symm.trans going)).1
    rw [gone.handed, taken]
    simp only [Bool.false_eq_true, if_false, ← List.append_assoc]
    exact List.prefix_append _ _
  obtain ⟨kept, known⟩ := Trace.step_promises service.regenerator later (gone.fresh (first.fresh fresh)) asked ready
  have asking := Trace.step_goes service.regenerator later gone.aligned Action.flush
  obtain ⟨_, _, last⟩ := service.trail_goes asking.aligned after
  refine ((last.kept ticket known _ kept).answered answered).trans ?_
  rw [Trace.executed, List.flatMap_append]
  exact List.prefix_append _ _

end

end Service
end FreshDocs
