import FreshDocs.Proofs.ArtifactRequests
import FreshDocs.Proofs.BatchInvalidation
import FreshDocs.Proofs.ReadCounters
import FreshDocs.Proofs.StoreReads

/-! What reading an analysis gives, and what it takes away. An analysis is served while its time has not run out and the
live file is the one that it was made from. A file with other content takes everything along that depends on it; time
and a touch take the analysis alone. -/

namespace FreshDocs

namespace Store
variable {α : Type}

/-- What is held under a key, apart from its place in the order of uses. -/
def item? (store : Store α) (key : String) : Option (Item α) :=
  (store.find? key).map (Item.of key)

/-- The second store holds what the first one does, without some of the keys. The order of uses may be another one. -/
def Sheds (gone : String → Prop) (before after : Store α) : Prop :=
  ∀ key item, after.item? key = some item ↔ before.item? key = some item ∧ ¬gone key

theorem Without.sheds {gone : String → Prop} {before after : Store α} (without : Without gone before after) :
    Sheds gone before after := by
  intro key item
  simp only [item?, Option.map_eq_some_iff, without key]
  grind

namespace Sheds
variable {first second third : Store α} {gone other : String → Prop}

/-- It only matters which of the keys are gone that something was held under. -/
theorem congr (sheds : Sheds gone first second)
    (same : ∀ key entry, first.find? key = some entry → (gone key ↔ other key)) : Sheds other first second := by
  intro key item
  rw [sheds key item]
  refine and_congr_right fun held => not_congr ?_
  obtain ⟨entry, present, -⟩ := Option.map_eq_some_iff.mp held
  exact same key entry present

theorem trans (one : Sheds gone first second) (two : Sheds other second third) :
    Sheds (fun key => gone key ∨ other key) first third := by
  intro key item
  rw [two key item, one key item, not_or, and_assoc]

theorem use {store : Store α} {key : String} {entry : Entry α} (present : store.find? key = some entry) :
    Sheds (fun _ => False) store (store.use key entry) := by
  intro place item
  rw [item?, item?, find?_use]
  by_cases same : key = place
  · subst same
    simp [present, Item.of]
  · simp [same]

/-- A read takes away at most what is held under its own key, and this only where it serves nothing. -/
theorem get (store : Store α) (now : Timestamp) (key : String) (digest : Option Digest) :
    Sheds (fun other => other = key ∧ (store.get now key digest).1 = none) store (store.get now key digest).2 := by
  unfold Store.get
  split
  next absent =>
    apply (Without.refl store).sheds.congr
    intro other entry present
    have differ : other ≠ key := by
      rintro rfl
      cases absent.symm.trans present
    simp [differ]
  next entry present =>
    dsimp only
    split
    · have dropped := (Without.drop store key).sheds
      exact dropped.congr (by simp)
    · exact (use present).congr (by simp)

end Sheds
end Store

namespace Artifacts

/-! ### The store of analyses -/

/-- What is asked of the store of analyses: an analysis is stored with the digest of the file it was made from, and the
limits stay as they are. -/
def Asks : Store.Operation Analysis → Prop
  | .ask (.set _ analysis digest) => digest = some analysis.stamp.digest
  | .ask (.resize ..) => False
  | _ => True

theorem Asks.limits {operation : Store.Operation Analysis} (asks : Asks operation) (now : Timestamp)
    (store : Store Analysis) : (operation.apply now store).limits = store.limits := by
  cases operation with
  | readDigest | readStats => rfl
  | ask request =>
    cases request with
    | set key analysis digest => exact Store.limits_set store now key analysis digest
    | get key digest => exact (Store.Retains.get store now key digest).limits
    | has | peek | clear => rfl
    | delete key => exact (Store.Retains.drop store key).limits
    | resize => exact asks.elim
    | sweep => exact (Store.Retains.sweep store now).limits

def Operates (before after : Store Analysis) : Prop :=
  ∃ operations, after = Store.operate before operations ∧ ∀ entry ∈ operations, Asks entry.2

namespace Operates

theorem refl (store : Store Analysis) : Operates store store :=
  ⟨[], rfl, nofun⟩

theorem trans {first second third : Store Analysis} (one : Operates first second) (two : Operates second third) :
    Operates first third := by
  obtain ⟨operations, rfl, some⟩ := one
  obtain ⟨others, rfl, more⟩ := two
  exact ⟨operations ++ others, (Store.operate_append _ _ _).symm, List.forall_mem_append.mpr ⟨some, more⟩⟩

theorem single (store : Store Analysis) (now : Timestamp) (operation : Store.Operation Analysis) (asks : Asks operation) :
    Operates store (operation.apply now store) :=
  ⟨[(now, operation)], rfl, List.forall_mem_singleton.mpr asks⟩

theorem drop (store : Store Analysis) (key : String) : Operates store (store.drop key) :=
  single store .epoch (.ask (.delete key)) trivial

theorem dropAll (keys : List String) (cache : Artifacts) : Operates cache.analyses (dropAll keys cache).2.analyses := by
  induction keys generalizing cache with
  | nil => exact refl _
  | cons key rest ih => exact (drop cache.analyses key).trans (ih _)

theorem invalidate (cache : Artifacts) (path : Path) : Operates cache.analyses (cache.invalidate path).2.analyses :=
  dropAll _ cache

theorem invalidateAll (paths : List Path) (cache : Artifacts) :
    Operates cache.analyses (invalidateAll paths cache).2.analyses := by
  induction paths generalizing cache with
  | nil => exact refl _
  | cons path rest ih => exact (invalidate cache path).trans (ih _)

theorem invalidateTemplates (paths : List Path) (cache : Artifacts) :
    Operates cache.analyses (invalidateTemplates paths cache).2.analyses := by
  induction paths generalizing cache with
  | nil => exact refl _
  | cons path rest ih => exact ih _

theorem lookup (cache : Artifacts) (now : Timestamp) (key : String) (digest : Option Digest) :
    Operates cache.analyses (cache.lookup now key digest).2.analyses :=
  single cache.analyses now (.ask (.get key digest)) trivial

theorem get (cache : Artifacts) (files : Files) (now : Timestamp) (path : Path) :
    Operates cache.analyses (cache.get files now path).2.analyses := by
  unfold Artifacts.get
  dsimp only
  split
  next => exact refl _
  next =>
    split
    · exact (invalidate cache path).trans (lookup _ _ _ _)
    · exact lookup _ _ _ _
  next live found =>
    have read := lookup cache now path.key (some live.digest)
    split
    next analysis after served =>
      rw [served] at read
      split
      · exact read
      · exact read.trans (drop _ _)
    next after served =>
      rw [served] at read
      split
      · exact read.trans (invalidate after path)
      · exact read

theorem set (cache : Artifacts) (files : Files) (now : Timestamp) (path : Path) (analysis : Analysis)
    (dependencies : List String) :
    Operates cache.analyses (cache.set files now path analysis dependencies).2.analyses := by
  unfold Artifacts.set
  split
  · exact refl _
  · exact refl _
  · split
    · exact refl _
    · let stored := { analysis with dependencies }
      exact single cache.analyses now (.ask (.set path.key stored (some stored.stamp.digest))) rfl

theorem apply (now : Timestamp) (cache : Artifacts) (request : Request) :
    Operates cache.analyses (request.apply now cache).analyses := by
  cases request with
  | set files path analysis dependencies => exact set cache files now path analysis dependencies
  | get files path => exact get cache files now path
  | invalidate path => exact invalidate cache path
  | invalidateAll paths => exact invalidateAll paths cache
  | remove path => exact invalidate cache path
  | setTemplate files path template =>
    simp only [Request.apply, setTemplate]
    split <;> exact refl _
  | getTemplate files path =>
    simp only [Request.apply, getTemplate]
    split <;> exact refl _
  | invalidateTemplate path => exact refl _
  | invalidateTemplates paths => exact invalidateTemplates paths cache
  | sweep => exact single cache.analyses now (.ask .sweep) trivial
  | clear => exact single cache.analyses now (.ask .clear) trivial

theorem run (cache : Artifacts) (requests : List (Timestamp × Request)) :
    Operates cache.analyses (run cache requests).analyses := by
  induction requests generalizing cache with
  | nil => exact refl _
  | cons entry rest ih => exact (apply entry.1 cache entry.2).trans (ih _)

theorem limits {before after : Store Analysis} (operates : Operates before after) : after.limits = before.limits := by
  obtain ⟨operations, rfl, asks⟩ := operates
  induction operations generalizing before with
  | nil => rfl
  | cons entry rest ih =>
    obtain ⟨first, later⟩ := List.forall_mem_cons.mp asks
    exact (ih later).trans (first.limits entry.1 before)

section
variable {limits : Store.Limits} {weigh : Analysis → Nat} {store : Store Analysis}
  (operates : Operates { limits, weigh } store)
include operates

theorem coherent : store.Coherent := by
  obtain ⟨operations, rfl, -⟩ := operates
  exact Store.operate_valid limits weigh operations

theorem weighs : store.weigh = weigh := by
  obtain ⟨operations, rfl, -⟩ := operates
  exact Store.operate_weigh limits weigh operations

/-- What is held in a store of analyses has the digest of the file that it was made from. -/
theorem digest {key : String} {entry : Store.Entry Analysis} (present : store.find? key = some entry) :
    entry.digest = entry.value.stamp.digest := by
  obtain ⟨operations, rfl, asks⟩ := operates
  have member : Store.Item.of key entry ∈ (Store.operate { limits, weigh } operations).recency.items :=
    (Store.operate_valid limits weigh operations).mem_items.mpr ⟨entry, present, rfl⟩
  obtain ⟨storedAt, value, digest, shape, before, after, asked, -⟩ := (Store.mem_operate limits weigh operations).mp member
  have same : digest = some value.stamp.digest := asks (storedAt, .ask (.set key value digest)) (by simp [asked, Store.Item.of])
  have stored : entry.digest = digest.getD _ := congrArg Store.Item.digest shape
  rw [stored, same, Option.getD_some]
  exact congrArg (·.value.stamp.digest) shape.symm

end

end Operates

def Stamped (cache : Artifacts) : Prop :=
  ∀ key entry, cache.analyses.find? key = some entry → entry.digest = entry.value.stamp.digest

theorem run_stamped (limits : Limits) (requests : List (Timestamp × Request)) : (run (empty limits) requests).Stamped :=
  fun _ _ => (Operates.run (empty limits) requests).digest

/-! ### Reading -/

/-- An analysis that has not expired is stored under the key, and the file as it was found is the one it was made from. -/
def Serves (now : Timestamp) (cache : Artifacts) (key : String) (found : Option FileStamp) (analysis : Analysis) : Prop :=
  ∃ entry live, cache.analyses.find? key = some entry ∧ entry.value = analysis ∧
    cache.analyses.isExpired now entry = false ∧ found = some live ∧ analysis.stamp.digest = live.digest ∧
    analysis.stamp.size = live.size ∧ analysis.stamp.modified = live.modified

/-- The keys that go when an analysis is read and the file is found like this. -/
inductive Loses (now : Timestamp) (cache : Artifacts) (key : String) (found : Option FileStamp) : String → Prop where
  /-- There is no file any more, or it has other content: all that depends on it goes along. -/
  | changed {entry : Store.Entry Analysis} {other : String} (stored : cache.analyses.find? key = some entry)
      (differs : ∀ live ∈ found, entry.value.stamp.digest ≠ live.digest) (reached : other ∈ cache.graph.cascade key) :
      Loses now cache key found other
  /-- The content is the same, but the analysis has expired or the file was touched. -/
  | stale {entry : Store.Entry Analysis} {live : FileStamp} (stored : cache.analyses.find? key = some entry)
      (present : found = some live) (same : entry.value.stamp.digest = live.digest)
      (unfit : cache.analyses.isExpired now entry = true ∨ entry.value.stamp.size ≠ live.size ∨
        entry.value.stamp.modified ≠ live.modified) :
      Loses now cache key found key

structure Effects (files : Files) (now : Timestamp) (cache : Artifacts) (path : Path) (served : Option Analysis)
    (gone : String → Prop) : Prop where
  answer : (cache.get files now path).1 = .ok served
  sheds : Store.Sheds gone cache.analyses (cache.get files now path).2.analyses
  templates : (cache.get files now path).2.templates = cache.templates

theorem Effects.congr {files : Files} {now : Timestamp} {cache : Artifacts} {path : Path} {served : Option Analysis}
    {gone others : String → Prop} (effects : Effects files now cache path served gone)
    (same : ∀ key entry, cache.analyses.find? key = some entry → (gone key ↔ others key)) :
    Effects files now cache path served others :=
  ⟨effects.answer, effects.sheds.congr same, effects.templates⟩

section
variable {cache : Artifacts} {files : Files} {path : Path} (now : Timestamp)

/-- Nothing goes when nothing was stored. -/
theorem get_of_absent {found : Option FileStamp} (read : FileStamp.read files path = .ok found)
    (absent : cache.analyses.find? path.key = none) : Effects files now cache path none fun _ => False := by
  have kept (digest : Option Digest) :
      Store.Sheds (fun _ => False) cache.analyses (cache.analyses.get now path.key digest).2 := by
    apply (Store.Sheds.get cache.analyses now path.key digest).congr
    intro other entry present
    have differ : other ≠ path.key := by
      rintro rfl
      cases absent.symm.trans present
    simp [differ]
  have after : cache.get files now path = (.ok none, (cache.lookup now path.key (found.map (·.digest))).2) := by
    cases found <;> simp [Artifacts.get, read, lookup, Store.digest?, absent, Store.get_of_absent absent]
  constructor <;> rw [after]
  · exact kept _
  · rfl

/-- A file that is gone or has other content takes along all that depends on it. -/
theorem get_of_changed {found : Option FileStamp} (read : FileStamp.read files path = .ok found)
    {entry : Store.Entry Analysis} (stored : cache.analyses.find? path.key = some entry)
    (differs : ∀ live ∈ found, entry.digest ≠ live.digest) :
    Effects files now cache path none (· ∈ cache.graph.cascade path.key) := by
  have start : path.key ∈ cache.graph.cascade path.key := cache.graph.mem_cascade path.key
  cases found with
  | none =>
    have after : (cache.get files now path).2 = ((cache.invalidate path).2.lookup now path.key none).2 := by
      simp [Artifacts.get, read, Store.digest?, stored]
    obtain ⟨dropped, templates⟩ := dropAll_without (cache.graph.cascade path.key) cache
    have gone := dropped.sheds.trans (.get (cache.invalidate path).2.analyses now path.key none)
    refine ⟨get_of_missing read, ?_, ?_⟩ <;> rw [after]
    · refine gone.congr fun key _ _ => ?_
      grind
    · exact templates
  | some live =>
    have other := differs live rfl
    have missed : (cache.analyses.get now path.key (some live.digest)).1 = none := by
      refine Option.eq_none_iff_forall_ne_some.mpr fun value served => ?_
      obtain ⟨held, found, -, same, -⟩ := Store.get_eq_some.mp served
      cases stored.symm.trans found
      exact other same
    have after : cache.get files now path =
        (.ok none, ((cache.lookup now path.key (some live.digest)).2.invalidate path).2) := by
      simp [Artifacts.get, read, lookup, Store.digest?, stored, other, missed]
    obtain ⟨dropped, templates⟩ :=
      dropAll_without (cache.graph.cascade path.key) (cache.lookup now path.key (some live.digest)).2
    have gone := (Store.Sheds.get cache.analyses now path.key (some live.digest)).trans dropped.sheds
    constructor <;> rw [after]
    · refine gone.congr fun key _ _ => ?_
      grind
    · exact templates

/-- A file with the same content decides about its own analysis only. -/
theorem get_of_same {live : FileStamp} (read : FileStamp.read files path = .ok (some live))
    {entry : Store.Entry Analysis} (stored : cache.analyses.find? path.key = some entry)
    (same : entry.digest = live.digest) :
    let fits := cache.analyses.isExpired now entry = false ∧ entry.value.stamp.agrees live = true
    Effects files now cache path (if fits then some entry.value else none) fun key => key = path.key ∧ ¬fits := by
  have kept := Store.Sheds.get cache.analyses now path.key (some live.digest)
  cases expired : cache.analyses.isExpired now entry with
  | true =>
    have missed : (cache.analyses.get now path.key (some live.digest)).1 = none := by
      simp [Store.get, stored, expired]
    have after : cache.get files now path = (.ok none, (cache.lookup now path.key (some live.digest)).2) := by
      simp [Artifacts.get, read, lookup, Store.digest?, stored, same, missed]
    constructor <;> rw [after]
    · simp
    · exact kept.congr (by simp [missed])
    · rfl
  | false =>
    have served : (cache.analyses.get now path.key (some live.digest)).1 = some entry.value :=
      Store.get_eq_some.mpr ⟨entry, stored, expired, same, rfl⟩
    cases agrees : entry.value.stamp.agrees live with
    | true =>
      have after : cache.get files now path =
          (.ok (some entry.value), (cache.lookup now path.key (some live.digest)).2) := by
        simp [Artifacts.get, read, lookup, served, agrees]
      constructor <;> rw [after]
      · simp
      · exact kept.congr (by simp [served])
      · rfl
    | false =>
      let looked := (cache.lookup now path.key (some live.digest)).2
      have after : cache.get files now path =
          (.ok none, { looked with analyses := (looked.analyses.delete path.key).2 }) := by
        simp [Artifacts.get, read, lookup, served, agrees, looked]
      have gone := kept.trans (Store.Without.drop looked.analyses path.key).sheds
      constructor <;> rw [after]
      · simp
      · exact gone.congr (by simp [served])
      · rfl

theorem agrees_iff {stamp live : FileStamp} :
    stamp.agrees live = true ↔ stamp.digest = live.digest ∧ stamp.size = live.size ∧ stamp.modified = live.modified := by
  simp [FileStamp.agrees, and_assoc]

private theorem Stamped.get_reads (stamped : cache.Stamped) {found : Option FileStamp}
    (read : FileStamp.read files path = .ok found) :
    ∃ served, Effects files now cache path served (Loses now cache path.key found) ∧
      ∀ analysis, served = some analysis ↔ Serves now cache path.key found analysis := by
  cases stored : cache.analyses.find? path.key with
  | none =>
    refine ⟨none, (get_of_absent now read stored).congr fun other _ _ => ⟨False.elim, ?_⟩, by simp [Serves, stored]⟩
    rintro (⟨held, -, -⟩ | ⟨held, -, -, -⟩) <;> cases stored.symm.trans held
  | some entry =>
    have same := stamped path.key entry stored
    by_cases differs : ∀ live ∈ found, entry.digest ≠ live.digest
    · have effects := get_of_changed now read stored differs
      rw [same] at differs
      refine ⟨none, effects.congr fun other _ _ => ⟨.changed stored differs, ?_⟩, fun analysis => ⟨nofun, ?_⟩⟩
      · rintro (⟨-, -, reached⟩ | ⟨held, present, digest, -⟩)
        · exact reached
        · cases stored.symm.trans held
          exact (differs _ present digest).elim
      · rintro ⟨_, live, held, rfl, -, present, digest, -⟩
        cases stored.symm.trans held
        exact (differs live present digest).elim
    · obtain ⟨live, rfl, digest⟩ : ∃ live, found = some live ∧ entry.digest = live.digest := by simpa using differs
      have effects := get_of_same now read stored digest
      rw [same] at digest
      simp only [agrees_iff, digest, true_and] at effects
      refine ⟨_, effects.congr fun other _ _ => ?_, fun analysis => ?_⟩
      · constructor
        · rintro ⟨rfl, unfit⟩
          refine .stale stored rfl digest ?_
          grind
        · rintro (⟨held, differs, -⟩ | ⟨held, present, -, unfit⟩)
          · cases stored.symm.trans held
            exact (differs live rfl digest).elim
          · cases stored.symm.trans held
            cases present
            refine ⟨rfl, ?_⟩
            grind
      · rw [Option.ite_none_right_eq_some, Option.some.injEq]
        constructor
        · rintro ⟨⟨fresh, size, modified⟩, rfl⟩
          exact ⟨entry, live, stored, rfl, fresh, rfl, digest, size, modified⟩
        · rintro ⟨_, _, held, rfl, fresh, ⟨⟩, -, size, modified⟩
          cases stored.symm.trans held
          exact ⟨⟨fresh, size, modified⟩, rfl⟩

end

/-- At all times, and however a file is found, its analysis is served just if it has not expired and the file is the one
that it was made from. A read takes away what `Loses` says, and changes neither templates nor dependencies. -/
theorem run_get_reads (limits : Limits) (requests : List (Timestamp × Request)) (now : Timestamp) {files : Files}
    {path : Path} {found : Option FileStamp} (read : FileStamp.read files path = .ok found) :
    let cache := run (empty limits) requests
    (∃ served, (cache.get files now path).1 = .ok served ∧
        ∀ analysis, served = some analysis ↔ Serves now cache path.key found analysis) ∧
      Store.Sheds (Loses now cache path.key found) cache.analyses (cache.get files now path).2.analyses ∧
      (cache.get files now path).2.templates = cache.templates ∧
      (cache.get files now path).2.graph = cache.graph := by
  intro cache
  obtain ⟨served, effects, serves⟩ := (run_stamped limits requests).get_reads now read
  exact ⟨⟨served, effects.answer, serves⟩, effects.sheds, effects.templates, graph_get cache files now path⟩

def depending : List (Timestamp × Request) :=
  let files : Files :=
    { root := .directory [("a.src", .file .empty .epoch), ("page.md", .file .empty .epoch)], current := [] }
  let source : FileStamp := { path := ⟨"/a.src"⟩, digest := .ofBytes .empty, size := 0, modified := .epoch }
  let page := { source with path := ⟨"/page.md"⟩ }
  [(.epoch, .set files source.path (.ofStamp source .null []) []),
    (.epoch, .set files page.path (.ofStamp page .null []) ["/a.src"])]

/-- The source is gone when it is read. -/
theorem deleted_get_reads :
    let files : Files := .empty []
    let path : Path := ⟨"/a.src"⟩
    let cache := run (empty {}) depending
    FileStamp.read files path = .ok none ∧
      (∃ served, (cache.get files .epoch path).1 = .ok served ∧
        ∀ analysis, served = some analysis ↔ Serves .epoch cache path.key none analysis) ∧
      Store.Sheds (Loses .epoch cache path.key none) cache.analyses (cache.get files .epoch path).2.analyses ∧
      (cache.get files .epoch path).2.templates = cache.templates ∧
      (cache.get files .epoch path).2.graph = cache.graph := by
  intro files path cache
  have missing : FileStamp.read files path = .ok none := by decide +kernel
  exact ⟨missing, run_get_reads {} depending .epoch missing⟩

end Artifacts
end FreshDocs
