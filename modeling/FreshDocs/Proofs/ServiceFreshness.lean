import FreshDocs.Proofs.ServiceSnapshots
import FreshDocs.Proofs.SnapshotChecks

/-! What a service answers about a directory. Once the files that came and went below it have been
reported, and a flush that was asked for later is answered, the answer is that of a service with empty
stores. It is enough that a directory is reported in place of its files, as long as this directory lies
at or below the one that is asked for. -/

namespace FreshDocs.Service
open Batch

variable {σ : Type}

/-! ### Files in the course of a run -/

section
variable {service : Service σ}

private theorem carries_files (sound : service.Sound) (handed : List Change) (limit : Timestamp) (files : Files) :
    service.regenerator.Carries handed limit fun _ workspace => workspace.files = files := by
  refine ⟨fun _ _ => sound.asks.keeps ?_ ?_, ?_⟩
  · intro time request workspace steady same
    exact (Project.apply_files sound.analyzes _ time workspace steady).trans same
  · exact fun _ _ same => same
  · exact fun _ same _ _ _ _ => same

/-- Only a request to alter files changes them. -/
theorem step_files (sound : service.Sound) {trace : Trace σ} (aligned : trace.Aligned) (time : Timestamp) {happening : Happening σ}
    (steady : ∀ files, happening ≠ .ask (.alter files)) :
    (trace.step service.regenerator time (service.action time trace.machine happening)).machine.workspace.files =
      trace.machine.workspace.files := by
  let holds (_ : List Change) (workspace : Workspace) := workspace.files = trace.machine.workspace.files
  have carried : trace.Carried trace.handed holds := ⟨aligned, rfl, rfl⟩
  have carries (limit : Timestamp) : service.regenerator.Carries trace.handed limit holds := carries_files sound _ limit _
  have received (answer : Except Scheduler.Error Scheduler) :
      (trace.machine.receive answer).workspace.files = trace.machine.workspace.files := by
    cases answer <;> rfl
  cases happening with
  | ask request =>
    exact Project.apply_files sound.analyzes _ time _ fun files same => steady files (congrArg _ same)
  | arrange sections own => rfl
  | submit | flush | shutdown | hangUp => exact received _
  | turn kind => exact (Trace.turn_carried (carries time) (Int.le_refl _) carried kind).holds
  | settle => exact (Trace.settle_carried (carries time) (Int.le_refl _) carried).holds
  | advance target => exact (Trace.advance_carried (carries target) (Int.le_refl _) carried).holds

theorem trail_files (sound : service.Sound) {holds : Files → Prop} {happenings : List (Timestamp × Happening σ)}
    {trace : Trace σ} (aligned : trace.Aligned) (start : holds trace.machine.workspace.files)
    (altered : ∀ time files, (time, .ask (.alter files)) ∈ happenings → holds files) :
    holds (service.trail trace happenings).machine.workspace.files := by
  induction happenings generalizing trace with
  | nil => exact start
  | cons entry rest ih =>
    obtain ⟨time, happening⟩ := entry
    have stepped := Trace.step_goes service.regenerator time aligned (service.action time trace.machine happening)
    refine ih stepped.aligned ?_ fun time files member => altered time files (List.mem_cons_of_mem _ member)
    by_cases alters : ∃ files, happening = .ask (.alter files)
    · obtain ⟨files, rfl⟩ := alters
      exact altered time files List.mem_cons_self
    · rw [step_files sound aligned time fun files same => alters ⟨files, same⟩]
      exact start

/-- What is seen of the files differs between two moments only if it was altered in between. -/
theorem altered_between (sound : service.Sound) {α : Type} (view : Files → α) {happenings : List (Timestamp × Happening σ)}
    {trace : Trace σ} (aligned : trace.Aligned)
    (differs : view trace.machine.workspace.files ≠ view (service.trail trace happenings).machine.workspace.files) :
    ∃ first time files last, happenings = first ++ (time, .ask (.alter files)) :: last ∧
      view (service.trail trace first).machine.workspace.files ≠ view files := by
  induction happenings generalizing trace with
  | nil => exact (differs rfl).elim
  | cons entry rest ih =>
    obtain ⟨time, happening⟩ := entry
    have stepped := Trace.step_goes service.regenerator time aligned (service.action time trace.machine happening)
    by_cases same : view trace.machine.workspace.files =
        view (trace.step service.regenerator time (service.action time trace.machine happening)).machine.workspace.files
    · obtain ⟨first, later, files, last, rfl, found⟩ := ih stepped.aligned (same ▸ differs)
      exact ⟨(time, happening) :: first, later, files, last, rfl, found⟩
    · by_cases alters : ∃ files, happening = .ask (.alter files)
      · obtain ⟨files, rfl⟩ := alters
        exact ⟨[], time, files, rest, rfl, same⟩
      · exact (same (by rw [step_files sound aligned time fun files equal => alters ⟨files, equal⟩])).elim

end

/-! ### Reports -/

/-- Changes were reported after a beginning, and a flush that was asked for later has been answered. -/
def Flushed (service : Service σ) (machine : Machine σ) (before after : List (Timestamp × Happening σ))
    (changes : List Change) : Prop :=
  ∃ first time middle later last ticket,
    after = first ++ (time, .submit changes) :: middle ++ (later, .flush) :: last ∧
      (Action.flush : Action σ).ticket?
        (service.run machine (before ++ first ++ (time, .submit changes) :: middle)).scheduler = some ticket ∧
      ticket ∈ (service.run machine (before ++ after)).scheduler.acknowledged

/-- Whenever files came or went below a directory, that was reported later and flushed: for each file under
its own path, or under that of a directory on the way to it from the given one. -/
def Reported (service : Service σ) (machine : Machine σ) (happenings : List (Timestamp × Happening σ))
    (directory : Path) : Prop :=
  ∀ before time files after names, happenings = before ++ (time, .ask (.alter files)) :: after →
    (∀ name ∈ names, (Path.Component.name name).Proper) →
    ((service.run machine before).workspace.files.read (directory.down names)).isOk ≠
      (files.read (directory.down names)).isOk →
    ∃ front changes, front <+: names ∧
      (directory.down front).key ∈ Plan.mentioned (changes.map (Change.resolve service.project.root)) ∧
      service.Flushed machine (before ++ [(time, .ask (.alter files))]) after changes

section
variable {service : Service σ} {directory : Path} {names : List String}

/-- Of a file that has come since a moment, a report has been applied that was handed in since then. -/
theorem mentioned_since (sound : service.Sound) {trace : Trace σ} (aligned : trace.Aligned) (fresh : trace.Fresh)
    {before after : List (Timestamp × Happening σ)} (reported : service.Reported trace.machine (before ++ after) directory)
    (proper : ∀ name ∈ names, (Path.Component.name name).Proper)
    (gone : ((service.trail trace before).machine.workspace.files.read (directory.down names)).isOk = false)
    (came : ((service.trail trace (before ++ after)).machine.workspace.files.read (directory.down names)).isOk = true) :
    ∃ front, front <+: names ∧ (directory.down front).key ∈
      Plan.mentioned ((service.trail trace (before ++ after)).executed.drop (service.trail trace before).handed.length) := by
  obtain ⟨_, _, reached⟩ := service.trail_goes aligned before
  let view (files : Files) := (files.read (directory.down names)).isOk
  have changed : view (service.trail trace before).machine.workspace.files ≠
      view (service.trail (service.trail trace before) after).machine.workspace.files := by
    rw [← trail_append]
    simp [view, gone, came]
  obtain ⟨first, time, files, last, rfl, differs⟩ := altered_between sound view reached.aligned changed
  rw [← trail_append, machine_trail] at differs
  obtain ⟨front, changes, within, mentioned, more, moment, middle, later, rest, ticket, rfl, asked, answered⟩ :=
    reported (before ++ first) time files last names (by simp) proper differs
  refine ⟨front, within, ?_⟩
  let between := first ++ (time, .ask (.alter files)) :: more
  have shape : before ++ (first ++ (time, .ask (.alter files)) ::
      (more ++ (moment, .submit changes) :: middle ++ (later, .flush) :: rest)) =
      before ++ between ++ (moment, .submit changes) :: middle ++ (later, .flush) :: rest := by
    simp [between]
  have start : before ++ first ++ [(time, .ask (.alter files))] ++ more = before ++ between := by
    simp [between]
  rw [start, ← machine_trail] at asked
  rw [← machine_trail] at answered
  have applied := service.applied_of_flush aligned fresh asked (by rw [← shape]; simpa using answered)
  obtain ⟨_, _, waited⟩ := service.trail_goes reached.aligned between
  obtain ⟨rest, whole⟩ := applied
  rw [shape, ← whole, trail_append, waited.handed, List.append_assoc, List.append_assoc, List.drop_left,
    Plan.mem_mentioned_append, Plan.mem_mentioned_append]
  exact .inr (.inl mentioned)

/-- A snapshot that misses no report accounts for the files. -/
theorem accounted_since (sound : service.Sound) {trace : Trace σ} (aligned : trace.Aligned) (fresh : trace.Fresh)
    {before after : List (Timestamp × Happening σ)} (reported : service.Reported trace.machine (before ++ after) directory)
    {snapshot : Snapshot} {old node : Node} (earlier : (service.trail trace before).machine.workspace.files.Sound)
    (made : service.project.Made (service.trail trace before).machine.workspace.files directory.key snapshot)
    (there : (service.trail trace before).machine.workspace.files.node snapshot.project = .ok old)
    (later : (service.trail trace (before ++ after)).machine.workspace.files.Sound)
    (here : (service.trail trace (before ++ after)).machine.workspace.files.node directory = .ok node)
    (fits : node.InReach directory)
    (covered : Snapshots.misses
      (Plan.mentioned ((service.trail trace (before ++ after)).executed.drop (service.trail trace before).handed.length))
      directory.key snapshot = false) :
    service.project.Accounted (service.trail trace before).machine.workspace.files directory snapshot old node := by
  intro names content modified found gone
  have proper : ∀ name ∈ names, (Path.Component.name name).Proper :=
    fun name member => (((later.node here).at? found).1 name member).proper
  have came : ((service.trail trace (before ++ after)).machine.workspace.files.read (directory.down names)).isOk = true := by
    rw [later.read_down here found (fits names content modified found)]
    rfl
  obtain ⟨front, within, mentioned⟩ := mentioned_since sound aligned fresh reported proper gone came
  have proper : ∀ name ∈ front, (Path.Component.name name).Proper := fun name member => proper name (within.subset member)
  have filled := Files.filled_of_node here
  have member := Snapshots.misses_eq_false.mp covered _ mentioned (Path.isWithin_down proper filled)
  exact ⟨front, within, Project.listed_of_key sound.aggregates earlier made there proper filled member⟩

end

/-! ### Answers -/

/-- A content that some file has at some moment of a run. -/
def Seen (service : Service σ) (machine : Machine σ) (happenings : List (Timestamp × Happening σ))
    (content : ByteArray) : Prop :=
  ∃ before after path, happenings = before ++ after ∧
    (service.run machine before).workspace.files.read path = .ok content

/-- The files that there are at some moment of a run, and how many changes had been handed in by then. -/
def Moment (service : Service σ) (trace : Trace σ) (happenings : List (Timestamp × Happening σ)) (files : Files)
    (count : Nat) : Prop :=
  ∃ before after, happenings = before ++ after ∧ files = (service.trail trace before).machine.workspace.files ∧
    count = (service.trail trace before).handed.length

def launch (settings : Batch.Settings) (workspace : Workspace) (own : σ) : Machine σ :=
  { scheduler := .new settings, workspace, own }

/-- All files that a run has to do with are those of the start, or such as they were altered to. -/
theorem run_files {service : Service σ} (sound : service.Sound) {settings : Batch.Settings} {workspace : Workspace} {own : σ}
    {holds : Files → Prop} {happenings : List (Timestamp × Happening σ)} (start : holds workspace.files)
    (altered : ∀ time files, (time, .ask (.alter files)) ∈ happenings → holds files) :
    holds (service.run (launch settings workspace own) happenings).workspace.files := by
  have aligned : (Trace.start settings workspace own).Aligned := rfl
  have kept := trail_files sound aligned start altered
  rwa [machine_trail] at kept

section
variable {service : Service σ} {settings : Batch.Settings} {files : Files} {limits : Artifacts.Limits} {snapshots : Store.Limits}
  {own : σ} {happenings : List (Timestamp × Happening σ)} {now : Timestamp} {directory : Path} {node : Node}

private theorem seen_of_read (trace : Trace σ) {before after : List (Timestamp × Happening σ)} (split : happenings = before ++ after)
    {path : Path} {content : ByteArray} (read : (service.trail trace before).machine.workspace.files.read path = .ok content) :
    service.Seen trace.machine happenings content :=
  ⟨before, after, path, split, by rwa [← machine_trail]⟩

/-- In a run from empty stores, each snapshot lasts from the moment at which it was made. -/
theorem run_lasting (sound : service.Sound) (timely : ∀ entry ∈ happenings, Happening.Timely now entry)
    (apart : Project.Apart (service.Seen (launch settings (.ofFiles files limits snapshots) own) happenings)) :
    let trace := Trace.start settings (.ofFiles files limits snapshots) own
    service.Lasting (service.Seen trace.machine happenings) (service.Moment trace happenings) snapshots.ttl now
      (service.trail trace happenings).executed (service.trail trace happenings).machine.workspace := by
  intro trace
  have aligned : trace.Aligned := rfl
  refine trail_lasting sound apart aligned ?_ (fun before after split => ⟨before, after, split, rfl, rfl⟩) timely ?_
  · refine ⟨Project.genuine_ofFiles _ _ _ _ _ _ fun path content read => ?_, rfl, .initial snapshots _, ?_⟩
    · exact seen_of_read trace (List.nil_append happenings).symm read
    · intro key entry found
      simp [trace, Trace.start, Workspace.ofFiles, Snapshots.empty, Store.empty, Store.find?] at found
  · intro time files member path content read
    obtain ⟨before, after, rfl⟩ := List.append_of_mem member
    have split : before ++ (time, .ask (.alter files)) :: after = before ++ [(time, .ask (.alter files))] ++ after := by simp
    have there : (service.trail trace (before ++ [(time, .ask (.alter files))])).machine.workspace.files = files := by
      rw [trail_append]
      rfl
    exact seen_of_read trace split (there ▸ read)

private theorem snapshot_alike (sound : service.Sound) (valid : files.Sound)
    (altered : ∀ time files, (time, .ask (.alter files)) ∈ happenings → files.Sound)
    (timely : ∀ entry ∈ happenings, Happening.Timely now entry)
    (apart : Project.Apart (service.Seen (launch settings (.ofFiles files limits snapshots) own) happenings))
    (here : (service.run (launch settings (.ofFiles files limits snapshots) own) happenings).workspace.files.node directory = .ok node)
    (fits : node.InReach directory)
    (reported : service.Reported (launch settings (.ofFiles files limits snapshots) own) happenings directory) :
    let warm := (service.run (launch settings (.ofFiles files limits snapshots) own) happenings).workspace
    warm.Genuine service.project.analyzer service.compiler
        (service.Seen (launch settings (.ofFiles files limits snapshots) own) happenings) ∧
      Project.Alike Snapshot.keyed (service.project.snapshot now directory warm).1
        (service.project.snapshotOf warm.files directory) := by
  intro warm
  let trace : Trace σ := Trace.start settings (.ofFiles files limits snapshots) own
  have aligned : trace.Aligned := rfl
  have ran : (service.trail trace happenings).machine.workspace = warm := by rw [machine_trail]; rfl
  have lasting : service.Lasting (service.Seen trace.machine happenings) (service.Moment trace happenings) snapshots.ttl now
      (service.trail trace happenings).executed warm := ran ▸ run_lasting sound timely apart
  refine ⟨lasting.genuine, ?_⟩
  rcases Project.snapshot_cases sound.analyzes sound.aggregates apart lasting.genuine now directory with
    anew | ⟨entry, found, fresh, outcome⟩
  · exact anew
  · obtain ⟨_, _, ⟨before, after, split, rfl, rfl⟩, made, covered⟩ := lasting.covered directory.key entry found
    have covered := covered (by rw [← lasting.limit]; exact fresh)
    obtain ⟨old, there⟩ := Project.node_of_snapshotOf made.shape
    have earlier : (service.trail trace before).machine.workspace.files.Sound :=
      trail_files sound aligned valid fun time files member => altered time files (split ▸ List.mem_append_left after member)
    have later : warm.files.Sound := ran ▸ trail_files sound aligned valid altered
    have accounted : service.project.Accounted (service.trail trace before).machine.workspace.files directory entry.value
        old node := by
      subst split
      exact accounted_since sound aligned (Trace.start_fresh _ _ _) reported earlier made there (ran ▸ later) (ran ▸ here)
        fits covered
    have knew : ∀ path content, (service.trail trace before).machine.workspace.files.read path = .ok content →
        service.Seen trace.machine happenings content := fun _ _ => seen_of_read trace split
    rcases outcome with ⟨error, failed⟩ | ⟨checked, served⟩
    · exact (Project.check_settles sound.aggregates earlier made there later here accounted error failed).elim
    · rw [served]
      have complete := Project.checked_complete sound.analyzes sound.aggregates earlier made there later here apart knew
        lasting.genuine.files checked accounted
      exact Project.checked_alike sound.analyzes sound.aggregates earlier made there later here apart knew lasting.genuine.files
        checked fits complete

end

/-- Wherever a run of a service has got to, whatever it was asked meanwhile, and however its batches went:
once the files that came and went below a directory are reported and flushed, the directory is answered for
as by a service with empty stores. The manifest lists the source files that are there now, and no others.
The files must be in reach from the directory as it is spelled, since what is stored knows them by their
keys, which can be shorter. -/
theorem run_snapshots_fresh (service : Service σ) (sound : service.Sound) (settings : Batch.Settings) {files : Files}
    (valid : files.Sound) (limits others : Artifacts.Limits) (snapshots more : Store.Limits) (own : σ)
    (happenings : List (Timestamp × Happening σ))
    (altered : ∀ time files, (time, .ask (.alter files)) ∈ happenings → files.Sound) {now : Timestamp}
    (timely : ∀ entry ∈ happenings, Happening.Timely now entry)
    (apart : Project.Apart (service.Seen (launch settings (.ofFiles files limits snapshots) own) happenings))
    {directory : Path} {node : Node}
    (here : (service.run (launch settings (.ofFiles files limits snapshots) own) happenings).workspace.files.node directory = .ok node)
    (fits : node.InReach directory)
    (reported : service.Reported (launch settings (.ofFiles files limits snapshots) own) happenings directory)
    (later : Timestamp) :
    let warm := (service.run (launch settings (.ofFiles files limits snapshots) own) happenings).workspace
    let cold := Workspace.ofFiles warm.files others more
    Project.Alike Snapshot.keyed (service.project.snapshot now directory warm).1
        (service.project.snapshot later directory cold).1 ∧
      ∀ snapshot, (service.project.snapshot now directory warm).1 = .ok snapshot → ∀ key digest,
        snapshot.manifest[key]? = some digest ↔ ∃ names content,
          service.project.IsSource warm.files directory names content ∧ key = (directory.down names).key ∧
            digest = Digest.ofBytes content := by
  intro warm cold
  obtain ⟨genuine, lived⟩ := snapshot_alike sound valid altered timely apart here fits reported
  have bare : Project.Alike Snapshot.keyed (service.project.snapshot later directory cold).1
      (service.project.snapshotOf warm.files directory) := by
    have empty := Project.genuine_ofFiles service.project.analyzer service.compiler _ warm.files others more genuine.files
    rcases Project.snapshot_cases sound.analyzes sound.aggregates apart empty later directory with anew | ⟨entry, found, -⟩
    · exact anew
    · simp [Workspace.ofFiles, Snapshots.empty, Store.empty, Store.find?] at found
  refine ⟨lived.trans bare.symm, fun snapshot answered key digest => ?_⟩
  have valid : warm.files.Sound := run_files sound valid altered
  rw [answered] at lived
  obtain ⟨made, shape, keyed⟩ := lived.ok
  have manifests : snapshot.manifest = made.manifest := congrArg (fun shown => shown.manifest) keyed
  rw [manifests, Project.manifest_of_snapshotOf valid here sound.aggregates shape]
  constructor
  · rintro ⟨names, listed, content, read, rest⟩
    exact ⟨names, content, (Project.isSource_iff valid here).mpr ⟨listed, read⟩, rest⟩
  · rintro ⟨names, content, source, rest⟩
    obtain ⟨listed, read⟩ := (Project.isSource_iff valid here).mp source
    exact ⟨names, listed, content, read, rest⟩

def publishing : Service Sync.Hub where
  project := Project.counted
  compiler := Markdown.compile
  regenerator := Publisher.regenerator Project.counted

theorem publishing_sound : publishing.Sound :=
  ⟨Analyzer.stats_pure, Analyzer.stats_aggregates, Markdown.compile_pure, Publisher.regenerator_asks _⟩

def publishingStart : Machine Sync.Hub :=
  launch { templateExtensions := ["ts"] } (.ofFiles (.empty []) {} {}) { settings := {} }

def page : Files :=
  Project.single "page.ts" "\x7b\x7b".toUTF8

/-- A directory is asked for, then a file is added to it, reported and flushed. -/
def adding : List (Timestamp × Happening Sync.Hub) :=
  [(.epoch, .ask (.snapshot ⟨"/"⟩)), (.epoch, .ask (.alter page)),
    (.epoch, .submit [{ path := ⟨"page.ts"⟩, kind := .added, timestamp := .epoch }]), (.epoch, .flush), (.epoch, .settle)]

private theorem at?_single {name : String} {content held : ByteArray} {modified : Timestamp} {names : List String}
    (found : (Project.single name content).root.at? names = some (.file held modified)) : names = [name] := by
  cases names with
  | nil => cases found
  | cons first rest =>
    obtain ⟨next, entry, later⟩ := Option.bind_eq_some_iff.mp found
    have same := Node.mem_of_entry? entry
    simp only [List.mem_singleton, Prod.mk.injEq] at same
    obtain ⟨rfl, rfl⟩ := same
    cases rest with
    | nil => rfl
    | cons second more => cases later

private theorem single_sound {name : String} (named : Files.Name name) (content : ByteArray) : (Project.single name content).Sound :=
  ⟨.directory _ (by simp) (by simpa using named) (by simpa using .file content .epoch), _, rfl⟩

private theorem empty_sound : (Files.empty []).Sound :=
  ⟨.directory _ (by simp) (by simp) (by simp), _, rfl⟩

private theorem empty_read (path : Path) : ((Files.empty []).read path).isOk = false := by
  have below : Files.Below (fun _ => False) (Files.empty []).root := Files.below_default _
  cases read : (Files.empty []).read path with
  | error fault => rfl
  | ok content => exact (Files.read_below below read).elim

private theorem page_sound : page.Sound :=
  single_sound ⟨⟨by decide, by decide, by decide, by decide⟩, by decide, by decide⟩ _

private theorem page_node : page.node ⟨"/"⟩ = .ok page.root :=
  rfl

private theorem alter_mem_adding {time : Timestamp} {files : Files} (member : (time, .ask (.alter files)) ∈ adding) :
    files = page := by
  simp [adding] at member
  exact member.2

/-- Nothing but the page is ever seen. -/
theorem adding_seen {content : ByteArray} (known : publishing.Seen publishingStart adding content) : content = "\x7b\x7b".toUTF8 := by
  obtain ⟨before, after, path, split, read⟩ := known
  let holds (files : Files) := ∀ path content, files.read path = .ok content → content = "\x7b\x7b".toUTF8
  have held : holds (publishing.run publishingStart before).workspace.files := by
    refine run_files publishing_sound ?_ ?_
    · intro path content read
      have missing := empty_read path
      rw [show (Files.empty []).read path = _ from read] at missing
      cases missing
    · intro time files member path content read
      obtain rfl := alter_mem_adding (show (time, _) ∈ adding from split ▸ List.mem_append_left after member)
      exact Project.single_read read
  exact held path content read

private theorem adding_files : (publishing.run publishingStart adding).workspace.files = page := by
  let start : Trace Sync.Hub := { machine := publishingStart }
  let holds (files : Files) := files = page
  have aligned : start.Aligned := rfl
  obtain ⟨_, _, reached⟩ := publishing.trail_goes aligned (adding.take 2)
  have kept : holds (publishing.trail (publishing.trail start (adding.take 2)) (adding.drop 2)).machine.workspace.files :=
    trail_files publishing_sound reached.aligned rfl fun time files member => alter_mem_adding (List.mem_of_mem_drop member)
  rw [← trail_append, machine_trail] at kept
  exact kept

private theorem adding_reported : publishing.Reported publishingStart adding ⟨"/"⟩ := by
  intro before time files after names split proper differs
  obtain ⟨rfl, rfl, rfl, rfl⟩ : before = adding.take 1 ∧ time = .epoch ∧ files = page ∧ after = adding.drop 2 := by
    match before with
    | [] => simp [adding] at split
    | [first] =>
      simp [adding] at split ⊢
      exact ⟨split.1.symm, split.2.1.1.symm, split.2.1.2.symm, split.2.2.symm⟩
    | first :: second :: rest =>
      have member : (time, .ask (.alter files)) ∈ adding.drop 2 := by
        rw [split]
        simp
      simp [adding] at member
  let holds (files : Files) := ∀ path, (files.read path).isOk = false
  have empty : holds (publishing.run publishingStart (adding.take 1)).workspace.files :=
    run_files publishing_sound empty_read (by simp [adding])
  obtain rfl : names = ["page.ts"] := by
    rw [empty] at differs
    cases read : page.read (Path.down ⟨"/"⟩ names) with
    | error fault =>
      rw [read] at differs
      exact (differs rfl).elim
    | ok content =>
      obtain ⟨modified, found⟩ := page_sound.at?_of_read page_node read (Path.place_down proper (by decide))
      exact at?_single found
  refine ⟨["page.ts"], _, List.prefix_refl _, ?_, [], .epoch, [], .epoch, [(.epoch, .settle)], 0, rfl, ?_, ?_⟩
  · decide
  · rfl
  · decide +kernel

private theorem adding_timely : ∀ entry ∈ adding, Happening.Timely .epoch entry := by
  have now : Timestamp.epoch ≤ .epoch := Int.le_refl _
  simp [adding, Happening.Timely, now]

private theorem adding_apart : Project.Apart (publishing.Seen publishingStart adding) :=
  fun _ _ one two _ => (adding_seen one).trans (adding_seen two).symm

/-- The batch has failed, since the template does not compile, and still the added file is in what is answered. -/
theorem added_snapshots_fresh :
    publishing.Sound ∧ (Files.empty []).Sound ∧ (∀ time files, (time, .ask (.alter files)) ∈ adding → files.Sound) ∧
      (∀ entry ∈ adding, Happening.Timely .epoch entry) ∧ Project.Apart (publishing.Seen publishingStart adding) ∧
      publishing.Reported publishingStart adding ⟨"/"⟩ ∧
      let reached := publishing.run publishingStart adding
      reached.scheduler.history.operations.map (·.succeeded) = [false] ∧
        Project.Alike Snapshot.keyed (publishing.project.snapshot .epoch ⟨"/"⟩ reached.workspace).1
          (publishing.project.snapshot .epoch ⟨"/"⟩ (.ofFiles reached.workspace.files {} {})).1 ∧
        ∀ snapshot, (publishing.project.snapshot .epoch ⟨"/"⟩ reached.workspace).1 = .ok snapshot → ∀ key digest,
          snapshot.manifest[key]? = some digest ↔ ∃ names content,
            publishing.project.IsSource reached.workspace.files ⟨"/"⟩ names content ∧
              key = (Path.down ⟨"/"⟩ names).key ∧ digest = Digest.ofBytes content := by
  have altered : ∀ time files, (time, .ask (.alter files)) ∈ adding → files.Sound := by
    intro time files member
    obtain rfl := alter_mem_adding member
    exact page_sound
  have here : (publishing.run publishingStart adding).workspace.files.node ⟨"/"⟩ = .ok page.root := by
    rw [adding_files]
    exact page_node
  have fits : page.root.InReach ⟨"/"⟩ := by
    intro names content modified found
    rw [at?_single found]
    decide
  have failed : (publishing.run publishingStart adding).scheduler.history.operations.map (·.succeeded) = [false] := by
    decide +kernel
  exact ⟨publishing_sound, empty_sound, altered, adding_timely, adding_apart, adding_reported, failed,
    run_snapshots_fresh publishing publishing_sound _ empty_sound {} {} {} {} _ adding altered adding_timely adding_apart
      here fits adding_reported .epoch⟩

/-! ### Renamed directories -/

def nested (name : String) (below : List (String × Node)) : Files :=
  { root := .directory [(name, .directory [("c", .directory below)])], current := [] }

/-- While the directory `a` is called `t`, a file is added below it. Each of the three changes is reported. -/
def returning : List (Timestamp × Happening Sync.Hub) :=
  let page : String × Node := ("page.ts", .file .empty .epoch)
  [(.epoch, .ask (.snapshot ⟨"/a/c"⟩)), (.epoch, .ask (.alter (nested "t" []))),
    (.epoch, .ask (.alter (nested "t" [page]))), (.epoch, .ask (.alter (nested "a" [page]))),
    (.epoch, .submit
      [{ path := ⟨"t"⟩, kind := .renamed ⟨"a"⟩, timestamp := .epoch },
        { path := ⟨"t/c/page.ts"⟩, kind := .added, timestamp := .epoch },
        { path := ⟨"a"⟩, kind := .renamed ⟨"t"⟩, timestamp := .epoch }]),
    (.epoch, .flush), (.epoch, .settle)]

def returningStart : Batch.Machine Sync.Hub :=
  launch {} (.ofFiles (nested "a" []) {} {}) { settings := {} }

def answeredSize (workspace : Workspace) (directory : Path) : Option Nat :=
  (publishing.project.snapshot .epoch directory workspace).1.toOption.map (·.manifest.size)

/-- It is not enough to report the renaming of a directory above the one that is asked for: the snapshot
of a directory inside it is served as it was, though a file has come. -/
theorem returned_snapshot_stale :
    0 ∈ (publishing.run returningStart returning).scheduler.acknowledged ∧
      answeredSize (publishing.run returningStart returning).workspace ⟨"/a/c"⟩ = some 0 ∧
      answeredSize (.ofFiles (publishing.run returningStart returning).workspace.files {} {}) ⟨"/a/c"⟩ = some 1 :=
  ⟨by decide +kernel, by decide +kernel, by decide +kernel⟩

end FreshDocs.Service
