import FreshDocs.Engine
import FreshDocs.Proofs.BatchInvalidation
import FreshDocs.Proofs.PathAnchors
import FreshDocs.Proofs.SectionDocuments
import Mathlib.Data.Finset.Max

/-! Which files a registered section is made from. The paths in a section are resolved when it is registered and
again when it is rendered, so from a root that leads somewhere it is made from other files than those whose changes
it is made anew for. -/

namespace FreshDocs

def Section.names (part : Section) : List String :=
  part.files.toList ++ part.template.toList

namespace Engine

def readPaths (engine : Engine) (part : Section) : List Path :=
  (engine.resolveSection part).files.toList.map engine.project.resolve

/-- A section is rendered, once registered, from exactly what the paths in it resolve to. -/
structure ReadsResolved (engine : Engine) (part : Section) : Prop where
  files : ∀ path, path ∈ engine.readPaths part ↔ path ∈ part.files.toList.map fun name => engine.resolve ⟨name⟩
  template : (engine.resolveSection part).template.map engine.project.resolve =
    part.template.map fun name => engine.resolve ⟨name⟩

variable {engine : Engine} {part : Section}

private theorem mem_resolveSection {key : String} : key ∈ (engine.resolveSection part).files.toList ↔
    ∃ name ∈ part.files.toList, (engine.resolve ⟨name⟩).key = key := by
  simp [resolveSection, Std.ExtTreeSet.mem_ofList]

private theorem resolve_key (engine : Engine) (path : Path) :
    engine.project.resolve (engine.resolve path).key = engine.resolve (engine.resolve path) :=
  congrArg engine.resolve (Path.key_resolve engine.project.root path)

theorem key_eq_iff {first second : Path} :
    (engine.resolve first).key = (engine.resolve second).key ↔ engine.resolve first = engine.resolve second := by
  refine ⟨fun same => ?_, congrArg Path.key⟩
  have first_back := Path.key_resolve engine.project.root first
  have second_back := Path.key_resolve engine.project.root second
  exact first_back.symm.trans ((congrArg Path.mk same).trans second_back)

private theorem dependsOn_iff {path : Path} : (engine.resolveSection part).dependsOn (engine.resolve path).key = true ↔
    ∃ name ∈ part.names, engine.resolve ⟨name⟩ = engine.resolve path := by
  simp only [Section.dependsOn, Bool.or_eq_true, decide_eq_true_iff, ← Std.ExtTreeSet.mem_iff_contains,
    ← Std.ExtTreeSet.mem_toList, mem_resolveSection, key_eq_iff, Section.names, List.mem_append, or_and_right, exists_or,
    Option.mem_toList]
  simp [resolveSection, Option.map_eq_some_iff, key_eq_iff]

private theorem anchored_of_files (relative : ∃ name ∈ part.files.toList, (Path.mk name).isAbsolute = false)
    (files : ∀ path, path ∈ engine.readPaths part ↔ path ∈ part.files.toList.map fun name => engine.resolve ⟨name⟩) :
    engine.project.root.Anchored := by
  rw [Path.Anchored, or_iff_not_imp_left]
  intro fixed
  have loose : engine.project.root.isAbsolute = false := by simpa using fixed
  -- How far a name goes the way of the root.
  let way (name : String) := Path.fall engine.project.root.components * Path.fall (Path.mk name).components
  obtain ⟨name, ⟨listed, relative⟩, furthest⟩ : ∃ name, (name ∈ part.files.toList ∧ (Path.mk name).isAbsolute = false) ∧
      ∀ other ∈ part.files.toList, (Path.mk other).isAbsolute = false → way other ≤ way name := by
    obtain ⟨first, member, relative⟩ := relative
    let names := (part.files.toList.filter fun name => (Path.mk name).isAbsolute = false).toFinset
    have filled : names.Nonempty := ⟨first, by simp [names, member, relative]⟩
    simpa [names] using names.exists_max_image way filled
  have again : (engine.resolve ⟨name⟩).isAbsolute = false := (Path.isAbsolute_resolve relative).trans loose
  have read : engine.resolve (engine.resolve ⟨name⟩) ∈ engine.readPaths part :=
    List.mem_map.mpr ⟨_, mem_resolveSection.mpr ⟨name, listed, rfl⟩, resolve_key engine ⟨name⟩⟩
  -- Where it is read, another name resolves to, which then goes further still.
  obtain ⟨other, given, same⟩ := List.mem_map.mp ((files _).mp read)
  have other_relative : (Path.mk other).isAbsolute = false := by
    by_contra absolute
    rw [Bool.not_eq_false] at absolute
    have rooted := congrArg Path.isAbsolute same
    rw [resolve, resolve, Path.resolve_of_absolute absolute, Path.isAbsolute_normalize, absolute,
      Path.isAbsolute_resolve again, loose] at rooted
    cases rooted
  have further : Path.fall (Path.mk other).components =
      Path.fall engine.project.root.components + Path.fall (Path.mk name).components := by
    have once : Path.fall (engine.resolve ⟨name⟩).components = _ := Path.fall_resolve relative loose
    have twice : Path.fall (engine.resolve (engine.resolve ⟨name⟩)).components = _ := Path.fall_resolve again loose
    have falls : Path.fall (engine.resolve ⟨other⟩).components = _ := Path.fall_resolve other_relative loose
    rw [same, twice, once] at falls
    omega
  have beyond := furthest other given other_relative
  simp only [way, further, Int.mul_add] at beyond
  exact mul_self_eq_zero.mp (le_antisymm (by omega) (mul_self_nonneg _))

private theorem readsResolved_iff : engine.ReadsResolved part ↔
    engine.project.root.Anchored ∨ ∀ name ∈ part.names, (Path.mk name).isAbsolute = true := by
  constructor
  · intro reads
    rw [or_iff_not_imp_left]
    intro adrift name member
    rcases List.mem_append.mp member with file | template
    · by_contra absolute
      exact adrift (anchored_of_files ⟨name, file, by simpa using absolute⟩ reads.files)
    · rw [Option.mem_toList] at template
      have back := reads.template
      rw [resolveSection, Option.mem_def.mp template, Option.map_some, Option.map_some, Option.map_some,
        Option.some_inj, resolve_key] at back
      exact ((Path.resolve_resolve_iff _ _).mp back).resolve_right adrift
  · intro anchored
    have back (name : String) (member : name ∈ part.names) :
        engine.project.resolve (engine.resolve ⟨name⟩).key = engine.resolve ⟨name⟩ := by
      rw [resolve_key]
      exact (Path.resolve_resolve_iff _ _).mpr (anchored.symm.imp_left fun absolute => absolute name member)
    constructor
    · intro path
      simp only [readPaths, List.mem_map, mem_resolveSection, exists_exists_and_eq_and]
      refine exists_congr fun name => and_congr_right fun member => ?_
      rw [back name (List.mem_append_left _ member)]
    · cases named : part.template with
      | none => simp [resolveSection, named]
      | some name =>
        simp only [resolveSection, named, Option.map_some]
        exact congrArg some (back name (List.mem_append_right _ (by simp [named])))

/-! ### Documents -/

/-- What a batch finds and a rendering shows of a section when both go by what the paths in it resolve to. -/
structure MadeFromResolved (engine : Engine) (part : Section) : Prop where
  /-- The section is made anew with the template that its template resolves to. -/
  template : ∀ path, Publisher.usesTemplate engine.project (engine.resolve path).key (engine.resolveSection part) = true ↔
    ∃ name ∈ part.template, engine.resolve ⟨name⟩ = engine.resolve path
  /-- What is made of other files and templates does not matter. -/
  only : ∀ (analyzer : Analyzer) (compiler : Compiler),
    (∀ name ∈ part.files.toList, analyzer.AgreesAt engine.project.analyzer (engine.resolve ⟨name⟩)) →
    (∀ name ∈ part.template, compiler (engine.resolve ⟨name⟩) = Markdown.compile (engine.resolve ⟨name⟩)) →
    ∀ now workspace, { engine.project with analyzer }.renderSectionBy compiler now (engine.resolveSection part) workspace =
      engine.project.renderSection now (engine.resolveSection part) workspace
  /-- Every file that is there is shown, if the template leaves a place. -/
  shows : engine.project.analyzer.Faithful → ∀ now workspace document,
    (engine.project.renderSection now (engine.resolveSection part) workspace).1 = .ok document →
    (∀ name ∈ part.template, ∀ found, (Project.template now (engine.resolve ⟨name⟩)
      (engine.project.analyses now (engine.readPaths part) workspace).2).1 = .ok (some found) → found.Places) →
    ∀ name ∈ part.files.toList, engine.project.Offers workspace.files (engine.resolve ⟨name⟩) →
      ∃ analysis, engine.project.Gives now (engine.readPaths part) workspace (engine.resolve ⟨name⟩) analysis ∧
        (Markdown.entry analysis).toList <:+: document.content.toList
  /-- A template that is there is found. -/
  finds : engine.project.analyzer.Faithful → ∀ now workspace, ∀ name ∈ part.template, ∀ content,
    workspace.files.read (engine.resolve ⟨name⟩) = .ok content →
    ∀ id, (engine.project.renderSection now (engine.resolveSection part) workspace).1 ≠ .error (.render (.missingTemplate id))

theorem ReadsResolved.template_back (reads : engine.ReadsResolved part) {name : String} (named : part.template = some name) :
    engine.project.resolve (engine.resolve ⟨name⟩).key = engine.resolve ⟨name⟩ := by
  have back := reads.template
  rw [resolveSection, named, Option.map_some, Option.map_some, Option.map_some, Option.some_inj] at back
  exact back

private theorem ReadsResolved.usesTemplate_iff (reads : engine.ReadsResolved part) {path : Path} :
    Publisher.usesTemplate engine.project (engine.resolve path).key (engine.resolveSection part) = true ↔
      ∃ name ∈ part.template, engine.resolve ⟨name⟩ = engine.resolve path := by
  cases named : part.template with
  | none => simp [Publisher.usesTemplate, resolveSection, named]
  | some name =>
    have joined : (engine.project.root.join ⟨(engine.resolve ⟨name⟩).key⟩).key = (engine.resolve ⟨name⟩).key := by
      rw [Path.key_join]
      exact (congrArg Path.text (reads.template_back named)).trans (congrArg Path.text (Path.key_resolve _ _)).symm
    simp [Publisher.usesTemplate, resolveSection, named, joined, key_eq_iff]

theorem ReadsResolved.made (reads : engine.ReadsResolved part) : engine.MadeFromResolved part := by
  refine ⟨fun path => reads.usesTemplate_iff, ?_, ?_, ?_⟩
  · intro analyzer compiler files template now workspace
    refine Project.renderSectionBy_of_agrees ?_ ?_ now workspace
    · intro path member
      obtain ⟨name, given, rfl⟩ := List.mem_map.mp ((reads.files path).mp member)
      exact files name given
    · intro key registered
      obtain ⟨name, named, rfl⟩ := Option.map_eq_some_iff.mp registered
      rw [reads.template_back named]
      exact template name named
  · intro faithful now workspace document rendered places name given offers
    have member : engine.resolve ⟨name⟩ ∈ engine.readPaths part := (reads.files _).mpr (List.mem_map.mpr ⟨name, given, rfl⟩)
    refine Project.renderSection_shows faithful rendered member offers ?_
    intro key registered found compiled
    obtain ⟨template, named, rfl⟩ := Option.map_eq_some_iff.mp registered
    rw [reads.template_back named] at compiled
    exact places template named found compiled
  · intro faithful now workspace name named content read id
    have registered : (engine.resolveSection part).template = some (engine.resolve ⟨name⟩).key :=
      congrArg (Option.map _) named
    exact Project.renderSection_finds faithful registered (by rwa [reads.template_back named]) id

/-! ### Changes -/

private theorem find_register : (engine.register part).workspace.sections.find? part.id = some (engine.resolveSection part) := by
  simp [register, Sections.register, Sections.find?, resolveSection]

private theorem source_resolve (root : Path) (change : Change) : (change.resolve root).source? = change.source?.map root.resolve := by
  obtain ⟨path, kind, timestamp⟩ := change
  cases kind <;> rfl

private theorem mem_affected_iff {settings : Batch.Settings} {cached : Nat} {changes : List Change} :
    engine.resolveSection part ∈ (Batch.Plan.ofChanges settings cached (engine.register part).workspace.sections
        (changes.map (Change.resolve engine.project.root))).sections ↔
      ∃ change ∈ changes, ∃ path, (path = change.path ∨ change.source? = some path) ∧
        ∃ name ∈ part.names, engine.resolve ⟨name⟩ = engine.resolve path := by
  have listed : engine.resolveSection part ∈ (engine.register part).workspace.sections.all :=
    SortedMap.mem_values.mpr ⟨part.id, find_register⟩
  have mentions (key : String) : key ∈ Batch.Plan.mentioned (changes.map (Change.resolve engine.project.root)) ↔
      ∃ change ∈ changes, ∃ path, (path = change.path ∨ change.source? = some path) ∧ key = (engine.resolve path).key := by
    rw [Batch.Plan.mem_mentioned]
    simp only [List.mem_map, exists_exists_and_eq_and]
    refine exists_congr fun change => and_congr_right fun _ => ?_
    simp only [source_resolve, Option.map_eq_some_iff, or_and_right, exists_or, exists_eq_left, exists_exists_and_eq_and]
    exact Iff.rfl
  simp only [Batch.Plan.ofChanges, Sections.affectedBy, List.mem_filter, listed, true_and, List.any_eq_true, mentions]
  constructor
  · rintro ⟨key, ⟨change, given, path, mentioned, rfl⟩, depends⟩
    exact ⟨change, given, path, mentioned, dependsOn_iff.mp depends⟩
  · rintro ⟨change, given, path, mentioned, named⟩
    exact ⟨_, ⟨change, given, path, mentioned, rfl⟩, dependsOn_iff.mpr named⟩

/-- A section that is registered with an engine is affected by the changes that mention what the paths in it resolve
to. It is rendered from the same files and the same template, and shows them, just if the root of the engine is
anchored or all paths in the section are absolute. -/
theorem register_reads_resolved_iff (engine : Engine) (part : Section) :
    (engine.register part).workspace.sections.find? part.id = some (engine.resolveSection part) ∧
    (∀ (settings : Batch.Settings) (cached : Nat) (changes : List Change), engine.resolveSection part ∈
        (Batch.Plan.ofChanges settings cached (engine.register part).workspace.sections
          (changes.map (Change.resolve engine.project.root))).sections ↔
      ∃ change ∈ changes, ∃ path, (path = change.path ∨ change.source? = some path) ∧
        ∃ name ∈ part.names, engine.resolve ⟨name⟩ = engine.resolve path) ∧
    (engine.ReadsResolved part ↔ engine.project.root.Anchored ∨ ∀ name ∈ part.names, (Path.mk name).isAbsolute = true) ∧
    (engine.ReadsResolved part → engine.MadeFromResolved part) :=
  ⟨find_register, fun _ _ _ => mem_affected_iff, readsResolved_iff, ReadsResolved.made⟩

def pair : Files where
  root := .directory [("p", .directory
    [("a.ts", .file "let x = 1;\n".toUTF8 .epoch), ("t.md", .file "# \x7b\x7bcontent\x7d\x7d\n".toUTF8 .epoch)])]
  current := []

def fresh (root : String) : Engine where
  now := .epoch
  project := { root := ⟨root⟩ }
  workspace := .ofFiles pair {} {}
  hub := { settings := {} }
  scheduler := .new {}

private theorem pair_offers (root : String) : (fresh root).project.Offers pair ⟨"p/a.ts"⟩ := by
  have read : pair.read ⟨"p/a.ts"⟩ = .ok "let x = 1;\n".toUTF8 := by decide +kernel
  have supported : Source.isSource ⟨"p/a.ts"⟩ = true := by decide +kernel
  exact ⟨⟨_, read⟩, supported⟩

/-- An engine with a relative root that leads nowhere. -/
def level : Engine :=
  fresh "p/.."

def page : Section where
  id := "s"
  files := .ofList ["p/a.ts"]
  template := some "p/t.md"

private theorem page_rendered :
    ∃ document, (level.project.renderSection .epoch (level.resolveSection page) level.workspace).1 = .ok document := by
  have succeeds : (level.project.renderSection .epoch (level.resolveSection page) level.workspace).1.isOk = true := by
    decide +kernel
  generalize (level.project.renderSection .epoch (level.resolveSection page) level.workspace).1 = answer at succeeds
  cases answer with
  | error error => cases succeeds
  | ok document => exact ⟨document, rfl⟩

private theorem page_places (found : Template)
    (compiled : (Project.template .epoch (level.resolve ⟨"p/t.md"⟩)
      (level.project.analyses .epoch (level.readPaths page) level.workspace).2).1 = .ok (some found)) : found.Places := by
  have text : (Project.template .epoch (level.resolve ⟨"p/t.md"⟩)
      (level.project.analyses .epoch (level.readPaths page) level.workspace).2).1.map (Option.map Template.compiled) =
        .ok (some "# \x7b\x7bcontent\x7d\x7d\n") := by
    decide +kernel
  rw [compiled] at text
  simp only [Except.map, Option.map_some, Except.ok.injEq, Option.some_inj] at text
  rw [Template.Places, text]
  exact ⟨['#', ' '], ['\n'], by decide +kernel⟩

/-- From a relative root that leads nowhere, files and templates are shown. -/
theorem level_reads_resolved :
    level.ReadsResolved page ∧ ∃ document analysis,
      (level.project.renderSection .epoch (level.resolveSection page) level.workspace).1 = .ok document ∧
      level.project.Gives .epoch (level.readPaths page) level.workspace (level.resolve ⟨"p/a.ts"⟩) analysis ∧
      (Markdown.entry analysis).toList <:+: document.content.toList := by
  obtain ⟨-, -, reads_iff, made⟩ := register_reads_resolved_iff level page
  have anchored : level.project.root.Anchored := .inr (by decide +kernel)
  have reads := reads_iff.mpr (.inl anchored)
  have resolved : level.resolve ⟨"p/a.ts"⟩ = ⟨"p/a.ts"⟩ := by decide +kernel
  have named : "p/a.ts" ∈ page.files.toList := by decide +kernel
  have offers : level.project.Offers level.workspace.files (level.resolve ⟨"p/a.ts"⟩) := by
    rw [resolved]
    exact pair_offers "p/.."
  obtain ⟨document, rendered⟩ := page_rendered
  obtain ⟨analysis, gives, shown⟩ := (made reads).shows Analyzer.stats_faithful .epoch level.workspace document rendered
    (fun _ template found => by cases template; exact page_places found) "p/a.ts" named offers
  exact ⟨reads, document, analysis, rendered, gives, shown⟩

/-- From a relative root that leads somewhere, the file of a section is looked for where it is not. -/
theorem adrift_reads_unresolved :
    let engine := fresh "p"
    let part : Section := { id := "s", files := .ofList ["a.ts"] }
    ¬engine.ReadsResolved part ∧
      engine.project.Offers pair (engine.resolve ⟨"a.ts"⟩) ∧
      (engine.resolveSection part).dependsOn (engine.resolve ⟨"a.ts"⟩).key = true ∧
      (engine.project.renderSection .epoch (engine.resolveSection part) engine.workspace).1 =
        .ok { path := "docs/s.md", content := "## s\n\n\n" } := by
  intro engine part
  have resolved : engine.resolve ⟨"a.ts"⟩ = ⟨"p/a.ts"⟩ := by decide +kernel
  refine ⟨?_, ?_, ?_, ?_⟩
  · intro reads
    have elsewhere : engine.readPaths part = [⟨"p/p/a.ts"⟩] := by decide +kernel
    have member := (reads.files ⟨"p/p/a.ts"⟩).mp (by simp [elsewhere])
    have listed : part.files.toList = ["a.ts"] := by decide +kernel
    simp [listed, resolved] at member
  · rw [resolved]
    exact pair_offers "p"
  · decide +kernel
  · decide +kernel

end Engine
end FreshDocs
