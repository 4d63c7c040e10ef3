import FreshDocs.Proofs.BatchChronicle
import Mathlib.Data.List.Chain
import Mathlib.Data.List.Nodup

/-! Batches that make sections anew. The sections that the changes affect are asked for one after the other, by
ascending id and with a pause between two of them, up to the first that fails. Each that was made is stamped with the
time at which it was made, and nothing else happens to the registered sections on behalf of the batch. -/

namespace FreshDocs.Batch

variable {σ : Type}

/-- A regenerator that makes a section and leaves it to others which sections are registered. -/
def Regenerator.LeavesSections (regenerator : Regenerator σ) : Prop :=
  ∀ (part : Section) (now : Timestamp) (world : Workspace × σ),
    (regenerator.act (.single part) now world).2.1.sections = world.1.sections

def Job.subject? : Job → Option String
  | .single part => some part.id
  | .everything | .templates _ => none

/-- What happens to the registered sections: one that was made is stamped if it is registered, and others may alter
them. -/
def Incident.apply (regenerator : Regenerator σ) (sections : Sections) : Incident σ → Sections
  | .attempt done =>
    match done.job.subject?, done.outcome regenerator with
    | some id, .done => sections.markUpdated id done.ended
    | _, _ => sections
  | .altered _ after => after

/-- Whatever others altered, they left a section as it was. -/
def Log.Spares (log : Log σ) (id : String) : Prop :=
  ∀ before after, .altered before after ∈ log.incidents → after.find? id = before.find? id

/-- Nobody alters anything while a batch is applied that nobody waits for. -/
theorem Account.Over.spares {regenerator : Regenerator σ} {timely : Prop} {delay : Nat} {account : Account σ}
    {registry : Sections} {failure : Option String} {now : Timestamp}
    (ending : account.Over regenerator timely delay registry failure now) (prompt : regenerator.Prompt)
    (strategy : account.plan.strategy ≠ .sections) (id : String) : account.log.Spares id := by
  intro before after member
  obtain ⟨attempt, same⟩ := ending.alone prompt strategy _ member
  cases same

/-! ### Pauses -/

/-- A pause lies between two attempts, and no more than that if time is kept. -/
def Attempt.Pauses (timely : Prop) (delay : Nat) (before after : Attempt σ) : Prop :=
  (delay * 1000000 : Int) ≤ after.called.nanosSince before.ended ∧
    (timely → after.called.nanosSince before.ended = delay * 1000000)

section
variable {regenerator : Regenerator σ} {timely : Prop} {delay : Nat} {base : Sections} {startedAt : Timestamp}
  {incidents : List (Incident σ)} {registry : Sections} {next : Timestamp}

private theorem Attempt.pauses_of_meets {before after : Attempt σ}
    (meets : Meets timely (before.ended.addMillis delay) after.called) : before.Pauses timely delay after := by
  have next : (before.ended.addMillis delay).toNanos = before.ended.toNanos + delay * 1000000 := by
    rw [Timestamp.addMillis, Timestamp.toNanos_ofNanos]
  have least : (before.ended.addMillis delay).toNanos ≤ after.called.toNanos := meets.1
  refine ⟨?_, fun kept => ?_⟩
  · rw [Timestamp.nanosSince]
    omega
  · have most : after.called.toNanos ≤ (before.ended.addMillis delay).toNanos := meets.2 kept
    rw [Timestamp.nanosSince]
    omega

private theorem Course.spaced (course : Course regenerator timely delay base startedAt incidents registry next) :
    (incidents.filterMap Incident.attempt?).IsChain (Attempt.Pauses timely delay) ∧
      ∀ last ∈ (incidents.filterMap Incident.attempt?).getLast?, next = last.ended.addMillis delay := by
  induction course with
  | start => exact ⟨.nil, nofun⟩
  | attempt last _ called _ _ ih =>
    simp only [List.filterMap_append, List.filterMap_cons, List.filterMap_nil, Incident.attempt?]
    refine ⟨List.isChain_append.mpr ⟨ih.1, .singleton last, ?_⟩, ?_⟩
    · intro before member after first
      cases first
      exact Attempt.pauses_of_meets (ih.2 before member ▸ called)
    · intro attempt member
      rw [List.getLast?_concat] at member
      cases member
      rfl
  | altered _ sections ih =>
    rw [List.filterMap_append, List.filterMap_cons_none rfl, List.filterMap_nil, List.append_nil]
    exact ih

/-! ### Stamps -/

/-- Where attempts only stamp sections, so does a whole batch. -/
theorem Course.registry_eq (course : Course regenerator timely delay base startedAt incidents registry next)
    (stamps : ∀ attempt, .attempt attempt ∈ incidents →
      attempt.leaves regenerator = (Incident.attempt attempt).apply regenerator attempt.world.1.sections) :
    registry = incidents.foldl (Incident.apply regenerator) base := by
  induction course with
  | start => rfl
  | attempt last _ _ _ met ih =>
    rw [List.foldl_append, ← ih fun attempt member => stamps attempt (List.mem_append_left _ member), ← met]
    exact stamps last (by simp)
  | altered _ sections ih =>
    rw [List.foldl_append]
    rfl

/-- What becomes of a section that others leave alone: it is stamped by an attempt that stamps it, or else it stays as
it was. -/
theorem Course.find?_eq (course : Course regenerator timely delay base startedAt incidents registry next)
    (marks : Attempt σ → Prop) {id : String}
    (spared : ∀ before after, .altered before after ∈ incidents → after.find? id = before.find? id)
    (marked : ∀ attempt, .attempt attempt ∈ incidents → marks attempt →
      (attempt.leaves regenerator).find? id = (attempt.world.1.sections.find? id).map (·.stamped attempt.ended))
    (unmarked : ∀ attempt, .attempt attempt ∈ incidents → ¬marks attempt →
      (attempt.leaves regenerator).find? id = attempt.world.1.sections.find? id) :
    (registry.find? id = base.find? id ∧ ∀ attempt, .attempt attempt ∈ incidents → ¬marks attempt) ∨
      ∃ attempt, .attempt attempt ∈ incidents ∧ marks attempt ∧
        registry.find? id = (base.find? id).map (·.stamped attempt.ended) := by
  induction course with
  | start => exact .inl ⟨rfl, nofun⟩
  | attempt last _ _ _ met ih =>
    have before := ih (fun before after member => spared before after (List.mem_append_left _ member))
      (fun attempt member => marked attempt (List.mem_append_left _ member))
      (fun attempt member => unmarked attempt (List.mem_append_left _ member))
    by_cases now : marks last
    · refine .inr ⟨last, by simp, now, ?_⟩
      rw [marked last (by simp) now, met]
      rcases before with ⟨same, -⟩ | ⟨attempt, -, -, same⟩
      · rw [same]
      · rw [same, Option.map_map]
        rfl
    · rw [unmarked last (by simp) now, met]
      rcases before with ⟨same, none⟩ | ⟨attempt, member, mark, same⟩
      · refine .inl ⟨same, fun attempt member => ?_⟩
        rcases List.mem_append.mp member with earlier | here
        · exact none attempt earlier
        · cases List.mem_singleton.mp here
          exact now
      · exact .inr ⟨attempt, List.mem_append_left _ member, mark, same⟩
  | altered _ sections ih =>
    rw [spared _ sections (List.mem_append_right _ (List.mem_singleton.mpr rfl))]
    have before := ih (fun before after member => spared before after (List.mem_append_left _ member))
      (fun attempt member => marked attempt (List.mem_append_left _ member))
      (fun attempt member => unmarked attempt (List.mem_append_left _ member))
    simpa using before

end

/-! ### The whole batch -/

structure Finished.MakesSections (regenerator : Regenerator σ) (timely : Prop) (delay : Nat) (finished : Finished σ)
    (operation : Operation) : Prop where
  /-- The sections of the plan are those that the changes affect, by ascending id. -/
  matched : finished.account.plan.sections = finished.account.sections.affectedBy finished.account.plan.changed
  ascending : (finished.account.plan.sections.map (·.id)).Pairwise (compare · · = .lt)
  /-- They were asked for in this order, up to the first that failed. -/
  calls : finished.account.log.attempts.map (·.job) =
    (finished.account.plan.sections.take finished.account.log.attempts.length).map .single
  well : ∀ attempt ∈ finished.account.log.attempts.dropLast, attempt.outcome regenerator = .done
  left : finished.account.log.attempts.length < finished.account.plan.sections.length →
    ∃ last, finished.account.log.attempts.getLast? = some last ∧ last.outcome regenerator ≠ .done
  pauses : finished.account.log.attempts.IsChain (Attempt.Pauses timely delay)
  /-- The batch is recorded as failed if and only if one of them failed. -/
  recorded : finished.machine.scheduler.history.operations.getLast? = some operation
  failed : operation.failure ≠ none ↔
    ∃ attempt ∈ finished.account.log.attempts, attempt.outcome regenerator ≠ .done
  /-- Those that were made were stamped one by one, while others could alter what is registered. -/
  registry : finished.machine.workspace.sections =
    finished.account.log.incidents.foldl (Incident.apply regenerator) finished.account.sections
  /-- So each of them has its own time, if others left it alone, -/
  stamped : ∀ attempt ∈ finished.account.log.attempts, attempt.outcome regenerator = .done →
    ∀ id, attempt.job.subject? = some id → finished.account.log.Spares id →
      finished.machine.workspace.sections.find? id =
        (finished.account.sections.find? id).map (·.stamped attempt.ended)
  /-- and no other section has changed. -/
  kept : ∀ id, finished.account.log.Spares id →
    (∀ attempt ∈ finished.account.log.attempts, attempt.job.subject? = some id → attempt.outcome regenerator ≠ .done) →
      finished.machine.workspace.sections.find? id = finished.account.sections.find? id

section
variable {regenerator : Regenerator σ} {timely : Prop} {settings : Settings} {finished : Finished σ} {operation : Operation}
  (records : finished.Records regenerator timely settings operation)
include records

theorem Finished.Records.matched :
    finished.account.plan.sections = finished.account.sections.affectedBy finished.account.plan.changed := by
  obtain ⟨cached, changes, planned⟩ := records.planned
  rw [planned]
  rfl

theorem Finished.Records.ascending :
    (finished.account.plan.sections.map (·.id)).Pairwise (compare · · = .lt) := by
  rw [records.matched]
  exact (Sections.ascending_all _).sublist (List.filter_sublist.map _)

variable (strategy : operation.strategy = .sections)
include strategy

theorem Finished.Records.jobs : ∃ rest, finished.account.plan.sections.map Job.single =
    finished.account.log.attempts.map (·.job) ++ rest ∧ (operation.failure = none → rest = []) := by
  obtain ⟨rest, left, last⟩ := records.ending.left
  rw [Plan.jobs, ← records.strategy, strategy] at left
  exact ⟨rest, left, last⟩

theorem Finished.Records.single {attempt : Attempt σ} (member : attempt ∈ finished.account.log.attempts) :
    ∃ part, attempt.job = .single part := by
  obtain ⟨rest, left, -⟩ := records.jobs strategy
  have asked : attempt.job ∈ finished.account.plan.sections.map Job.single :=
    left ▸ List.mem_append_left _ (List.mem_map_of_mem member)
  obtain ⟨part, -, same⟩ := List.mem_map.mp asked
  exact ⟨part, same.symm⟩

variable (leaves : regenerator.LeavesSections)
include leaves

private theorem Finished.Records.leaves_eq {attempt : Attempt σ} (member : attempt ∈ finished.account.log.attempts) :
    attempt.leaves regenerator = (Incident.attempt attempt).apply regenerator attempt.world.1.sections := by
  obtain ⟨part, single⟩ := records.single strategy member
  have left : (regenerator.act attempt.job attempt.ended attempt.world).2.1.sections = attempt.world.1.sections := by
    rw [single]
    exact leaves part _ _
  rw [Attempt.leaves_single regenerator single, left, Incident.apply, single, Job.subject?]
  cases attempt.outcome regenerator <;> rfl

/-- What becomes of a section that others leave alone. -/
theorem Finished.Records.find?_eq {id : String} (spared : finished.account.log.Spares id) :
    (finished.machine.workspace.sections.find? id = finished.account.sections.find? id ∧
      ∀ attempt ∈ finished.account.log.attempts, ¬(attempt.job.subject? = some id ∧ attempt.outcome regenerator = .done)) ∨
    ∃ attempt ∈ finished.account.log.attempts, (attempt.job.subject? = some id ∧ attempt.outcome regenerator = .done) ∧
      finished.machine.workspace.sections.find? id =
        (finished.account.sections.find? id).map (·.stamped attempt.ended) := by
  obtain ⟨next, course⟩ := records.ending.course
  have found := course.find?_eq (fun attempt => attempt.job.subject? = some id ∧ attempt.outcome regenerator = .done)
    spared ?_ ?_
  · simpa only [Account.mem_attempts] using found
  · rintro attempt member ⟨subject, done⟩
    rw [records.leaves_eq strategy leaves (Account.mem_attempts.mpr member), Incident.apply, subject, done]
    dsimp only
    rw [Sections.find?_markUpdated, if_pos rfl]
  · intro attempt member other
    rw [records.leaves_eq strategy leaves (Account.mem_attempts.mpr member), Incident.apply]
    split
    next subject done =>
      rw [Sections.find?_markUpdated, if_neg]
      rintro rfl
      exact other ⟨subject, done⟩
    next => rfl

omit leaves in
/-- No section is asked for twice. -/
theorem Finished.Records.attempt_eq {first second : Attempt σ} {id : String}
    (one : first ∈ finished.account.log.attempts) (two : second ∈ finished.account.log.attempts)
    (same : first.job.subject? = some id) (again : second.job.subject? = some id) : first = second := by
  obtain ⟨rest, left, -⟩ := records.jobs strategy
  have ids : (finished.account.plan.sections.map (·.id)).Nodup := by
    rw [records.matched]
    exact (Sections.nodup_all _).sublist (List.filter_sublist.map _)
  have subjects : (finished.account.plan.sections.map Job.single).map Job.subject? =
      (finished.account.plan.sections.map (·.id)).map some := by
    rw [List.map_map, List.map_map]
    rfl
  have distinct : ((finished.account.log.attempts.map (·.job)).map Job.subject?).Nodup := by
    have all : ((finished.account.plan.sections.map Job.single).map Job.subject?).Nodup :=
      subjects ▸ List.Nodup.map (fun _ _ => Option.some.inj) ids
    rw [left, List.map_append] at all
    exact (List.nodup_append.mp all).1
  rw [List.map_map] at distinct
  exact List.inj_on_of_nodup_map distinct one two (same.trans again.symm)

private theorem Finished.Records.makesSections : finished.MakesSections regenerator timely settings.sectionDelay operation := by
  obtain ⟨next, course⟩ := records.ending.course
  obtain ⟨rest, left, last⟩ := records.jobs strategy
  have lengths := congrArg List.length left
  simp only [List.length_map, List.length_append] at lengths
  refine ⟨records.matched, records.ascending, ?_, records.ending.well, ?_, course.spaced.1, records.recorded, records.ending.failed,
    ?_, ?_, ?_⟩
  · rw [List.map_take, left]
    simp
  · intro fewer
    have failed : operation.failure ≠ none := fun none => by
      have empty := last none
      simp only [empty, List.length_nil] at lengths
      omega
    obtain ⟨failure, some⟩ := Option.ne_none_iff_exists'.mp failed
    rw [records.ending.failure, Option.bind_eq_some_iff] at some
    obtain ⟨attempt, latest, reason⟩ := some
    refine ⟨attempt, latest, fun done => ?_⟩
    rw [done] at reason
    cases reason
  · exact course.registry_eq fun attempt member => records.leaves_eq strategy leaves (Account.mem_attempts.mpr member)
  · intro attempt member done id subject spared
    rcases records.find?_eq strategy leaves spared with ⟨-, none⟩ | ⟨other, again, ⟨same, -⟩, found⟩
    · exact absurd ⟨subject, done⟩ (none attempt member)
    · rw [found, records.attempt_eq strategy again member same subject]
  · intro id spared bad
    rcases records.find?_eq strategy leaves spared with ⟨same, -⟩ | ⟨attempt, member, ⟨subject, done⟩, -⟩
    · exact same
    · exact absurd done (bad attempt member subject)

end

/-- Whatever happens to a scheduler, and however the jobs of its regenerator end, each operation of its record that made
sections anew has an account of what was asked for, when, and how it ended, and of what became of the registered
sections. Pauses are exact if waits end when they are due, as they do under a clock that keeps time. -/
theorem Chronicle.run_makesSections (settings : Settings) {regenerator : Regenerator σ}
    (leaves : regenerator.LeavesSections) (workspace : Workspace) (own : σ) (moves : List (Timestamp × Move σ)) :
    let fresh : Machine σ := { scheduler := .new settings, workspace, own }
    let chronicle := (Chronicle.fresh settings workspace own).run regenerator moves
    chronicle.machine = fresh.play regenerator moves ∧
    (∀ now actions, Timely now actions → Machine.PlaysInTime regenerator fresh (fresh.run regenerator actions)) ∧
    List.Forall₂
      (fun finished operation => operation.strategy = .sections →
        finished.MakesSections regenerator (fresh.Punctual regenerator moves) settings.sectionDelay operation)
      chronicle.finished chronicle.machine.scheduler.operations := by
  intro fresh chronicle
  refine ⟨Chronicle.machine_run regenerator _ moves, fun now actions timely => ?_, ?_⟩
  · exact Machine.run_playsInTime (Machine.later_of_free now rfl) timely
  · have sound : chronicle.Sound regenerator (fresh.Punctual regenerator moves) settings :=
      Chronicle.run_sound (Chronicle.fresh_sound settings workspace own) moves id
    exact sound.operations.imp fun _ _ records strategy => records.makesSections strategy leaves

private theorem Script.leavesSections : Script.regenerator.LeavesSections :=
  fun _ _ _ => rfl

def atMillis (millis : Nat) : Timestamp :=
  Timestamp.epoch.addMillis millis

def sharing (ids : List String) : Workspace :=
  { Workspace.ofFiles (.empty []) {} {} with
    sections := ids.foldl (fun sections id => sections.register { id, files := .ofList ["x"] }) ∅ }

def slowThenBroken : Script :=
  { steps := [{ delay := 30 }, { outcome := .crashed none }] }

/-- Files change, and the scheduler is told to apply this at once. It goes on at these times. -/
def applying {σ : Type} (paths : List String) (wakes : List Nat) : List (Timestamp × Move σ) :=
  [(atMillis 0, .submit (paths.map fun path => { path := ⟨path⟩, kind := .modified, timestamp := atMillis 0 })),
    (atMillis 0, .turn .take), (atMillis 0, .flush), (atMillis 0, .turn .take)] ++
    wakes.map fun millis => (atMillis millis, .turn .wake)

theorem slowThenBroken_makesSections :
    let fresh : Machine Script := { scheduler := .new {}, workspace := sharing ["c", "b", "a"], own := slowThenBroken }
    let chronicle := (Chronicle.fresh {} (sharing ["c", "b", "a"]) slowThenBroken).run Script.regenerator (applying ["x"] [30, 130])
    fresh.Punctual Script.regenerator (applying ["x"] [30, 130]) ∧
    (∃ finished operation, chronicle.finished = [finished] ∧ chronicle.machine.scheduler.operations = [operation] ∧
      finished.MakesSections Script.regenerator (fresh.Punctual Script.regenerator (applying ["x"] [30, 130])) 100 operation) ∧
    chronicle.machine.scheduler.operations.map (fun operation => (operation.strategy, operation.failure)) =
      [(.sections, some "regeneration panicked")] ∧
    (chronicle.finished.flatMap fun finished => finished.account.log.attempts.map fun attempt =>
      (attempt.job.subject?, attempt.called, attempt.ended)) =
      [(some "a", atMillis 0, atMillis 30), (some "b", atMillis 130, atMillis 130)] ∧
    (chronicle.machine.workspace.sections.all.map fun part => (part.id, part.lastUpdated)) =
      [("a", some (atMillis 30)), ("b", none), ("c", none)] := by
  intro fresh chronicle
  have punctual : fresh.Punctual Script.regenerator (applying ["x"] [30, 130]) :=
    ⟨Move.inTime_of_ne nofun, Move.inTime_of_ne nofun, Move.inTime_of_ne nofun, Move.inTime_of_ne nofun,
      Move.inTime_of_due _ (by decide +kernel), Move.inTime_of_due _ (by decide +kernel), trivial⟩
  have told : chronicle.machine.scheduler.operations.map (fun operation => (operation.strategy, operation.failure)) =
      [(.sections, some "regeneration panicked")] := by decide +kernel
  obtain ⟨-, -, records⟩ := Chronicle.run_makesSections {} Script.leavesSections (sharing ["c", "b", "a"]) slowThenBroken
    (applying ["x"] [30, 130])
  obtain ⟨operation, alone, recorded⟩ := List.map_eq_singleton_iff.mp told
  have strategy : operation.strategy = .sections := congrArg Prod.fst recorded
  rw [alone] at records
  obtain ⟨finished, rest, makes, others, same⟩ := List.forall₂_cons_right_iff.mp records
  cases others
  exact ⟨punctual, ⟨finished, operation, same, alone, makes strategy⟩, told, by decide +kernel, by decide +kernel⟩

end FreshDocs.Batch
