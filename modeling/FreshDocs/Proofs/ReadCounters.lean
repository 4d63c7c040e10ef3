import FreshDocs.Proofs.ArtifactRequests
import FreshDocs.Proofs.SnapshotContents

/-! What the counters of the stores say about reads. Each lookup in a store counts as a hit or as a miss, and
nothing else counts as either. Where a file was only touched, its analysis is looked up and found, and yet not
served: the counter has a hit there, and the reader has nothing. -/

namespace FreshDocs

abbrev Reading (α : Type) := Except StoreError (Option α)

namespace Reading
variable {α : Type}

def isServed : Reading α → Bool
  | .ok found => found.isSome
  | .error _ => false

def isMissed : Reading α → Bool
  | .ok found => found.isNone
  | .error _ => false

@[simp] theorem isServed_ok (found : Option α) : isServed (.ok found) = found.isSome := rfl

@[simp] theorem isMissed_ok (found : Option α) : isMissed (.ok found) = found.isNone := rfl

end Reading

/-! ### One store -/

namespace Store

structure Counts {α : Type} (hits misses : Nat) (before after : Store α) : Prop where
  hits : after.hits = before.hits + hits
  misses : after.misses = before.misses + misses

namespace Counts

variable {α : Type}

theorem refl (store : Store α) : Counts 0 0 store store :=
  ⟨rfl, rfl⟩

theorem trans {first second third : Store α} {hits misses moreHits moreMisses : Nat}
    (one : Counts hits misses first second) (two : Counts moreHits moreMisses second third) :
    Counts (hits + moreHits) (misses + moreMisses) first third :=
  ⟨by rw [two.hits, one.hits, Nat.add_assoc], by rw [two.misses, one.misses, Nat.add_assoc]⟩

theorem quiet {first second third : Store α} {hits misses : Nat} (one : Counts 0 0 first second)
    (two : Counts hits misses second third) : Counts hits misses first third :=
  ⟨by rw [two.hits, one.hits, Nat.add_zero], by rw [two.misses, one.misses, Nat.add_zero]⟩

theorem drop (store : Store α) (key : String) : Counts 0 0 store (store.drop key) := by
  unfold Store.drop
  split <;> exact ⟨rfl, rfl⟩

theorem drops (keys : List String) (store : Store α) : Counts 0 0 store (keys.foldl Store.drop store) := by
  induction keys generalizing store with
  | nil => exact refl store
  | cons key rest ih => exact (drop store key).quiet (ih (store.drop key))

theorem evictFrom (keys : List String) (store : Store α) : Counts 0 0 store (store.evictFrom keys) := by
  induction keys generalizing store with
  | nil => exact refl store
  | cons key rest ih =>
    rw [Store.evictFrom]
    split
    · have dropped : Counts 0 0 store { store.drop key with evictions := store.evictions + 1 } :=
        ⟨(drop store key).hits, (drop store key).misses⟩
      exact dropped.quiet (ih _)
    · exact refl store

theorem evict (store : Store α) : Counts 0 0 store store.evict := by
  unfold Store.evict
  split
  · exact evictFrom _ _
  · exact refl store

theorem set [ToJson α] (store : Store α) (now : Timestamp) (key : String) (value : α) (digest : Option Digest) :
    Counts 0 0 store (store.set now key value digest) := by
  have put (dropped : Store α) (digest : Digest) (size : Nat) :
      Counts 0 0 dropped (dropped.put key value digest now size) := ⟨rfl, rfl⟩
  exact (drop store key).quiet ((put _ _ _).quiet (evict _))

theorem clear (store : Store α) : Counts 0 0 store store.clear :=
  ⟨rfl, rfl⟩

theorem sweep (store : Store α) (now : Timestamp) : Counts 0 0 store (store.sweep now).2 :=
  have dropped := drops (store.expiredKeys now) store
  ⟨dropped.hits, dropped.misses⟩

/-- A lookup counts once, by what it gives. -/
theorem get (store : Store α) (now : Timestamp) (key : String) (digest : Option Digest) :
    Counts (store.get now key digest).1.isSome.toNat (store.get now key digest).1.isNone.toNat store
      (store.get now key digest).2 := by
  unfold Store.get
  split
  next => exact ⟨rfl, rfl⟩
  next entry present =>
    have dropped := drop store key
    dsimp only
    split
    · exact ⟨dropped.hits, congrArg (· + 1) dropped.misses⟩
    · exact ⟨rfl, rfl⟩

end Counts

theorem get_eq_some {α : Type} {store : Store α} {now : Timestamp} {key : String} {asked : Digest} {value : α} :
    (store.get now key (some asked)).1 = some value ↔ ∃ entry, store.find? key = some entry ∧
      store.isExpired now entry = false ∧ entry.digest = asked ∧ entry.value = value := by
  unfold get
  cases store.find? key with
  | none => simp
  | some entry =>
    by_cases expired : store.isExpired now entry
    · simp [expired]
    · by_cases same : asked = entry.digest
      · simp [expired, same]
      · simp [expired, same, Ne.symm same]

end Store

/-! ### Analyses and templates -/

namespace Artifacts

def touched (files : Files) (now : Timestamp) (cache : Artifacts) (path : Path) : Bool :=
  match FileStamp.read files path, cache.analyses.find? path.key with
  | .ok (some live), some entry =>
    !cache.analyses.isExpired now entry && entry.digest = live.digest && !entry.value.stamp.agrees live
  | _, _ => false

structure Read where
  reading : Reading Analysis
  /-- Whether the file was only touched. -/
  touched : Bool

def Request.reads (now : Timestamp) (cache : Artifacts) : Request → List Read
  | .get files path => [⟨(cache.get files now path).1, cache.touched files now path⟩]
  | _ => []

def Request.templateReadings (now : Timestamp) (cache : Artifacts) : Request → List (Reading Template)
  | .getTemplate files path => [(cache.getTemplate files now path).1]
  | _ => []

/-- What is told of each request of a run when its turn comes. -/
def told {β : Type} (tells : Timestamp → Artifacts → Request → List β) (cache : Artifacts) :
    List (Timestamp × Request) → List β
  | [] => []
  | (now, request) :: rest => tells now cache request ++ told tells (request.apply now cache) rest

structure Counts (hits misses templateHits templateMisses : Nat) (before after : Artifacts) : Prop where
  analyses : Store.Counts hits misses before.analyses after.analyses
  templates : Store.Counts templateHits templateMisses before.templates after.templates

theorem Counts.trans {first second third : Artifacts} {hits misses templateHits templateMisses : Nat}
    {moreHits moreMisses moreTemplateHits moreTemplateMisses : Nat}
    (one : Counts hits misses templateHits templateMisses first second)
    (two : Counts moreHits moreMisses moreTemplateHits moreTemplateMisses second third) :
    Counts (hits + moreHits) (misses + moreMisses) (templateHits + moreTemplateHits)
      (templateMisses + moreTemplateMisses) first third :=
  ⟨one.analyses.trans two.analyses, one.templates.trans two.templates⟩

/-- Neither store counts anything. -/
abbrev Quiet (before after : Artifacts) : Prop := Counts 0 0 0 0 before after

namespace Quiet

theorem refl (cache : Artifacts) : Quiet cache cache :=
  ⟨.refl _, .refl _⟩

theorem delete (cache : Artifacts) (key : String) :
    Quiet cache { cache with analyses := (cache.analyses.delete key).2 } :=
  ⟨.drop _ _, .refl _⟩

theorem dropAll (keys : List String) (cache : Artifacts) : Quiet cache (dropAll keys cache).2 := by
  induction keys generalizing cache with
  | nil => exact refl cache
  | cons key rest ih => exact (delete cache key).trans (ih _)

theorem invalidate (cache : Artifacts) (path : Path) : Quiet cache (cache.invalidate path).2 :=
  dropAll _ cache

theorem invalidateAll (paths : List Path) (cache : Artifacts) : Quiet cache (invalidateAll paths cache).2 := by
  induction paths generalizing cache with
  | nil => exact refl cache
  | cons path rest ih => exact (invalidate cache path).trans (ih _)

theorem remove (cache : Artifacts) (path : Path) : Quiet cache (cache.remove path).2 :=
  have dropped := invalidate cache path
  ⟨dropped.analyses, dropped.templates.trans (.drop _ _)⟩

theorem invalidateTemplate (cache : Artifacts) (path : Path) : Quiet cache (cache.invalidateTemplate path).2 :=
  ⟨.refl _, .drop _ _⟩

theorem invalidateTemplates (paths : List Path) (cache : Artifacts) :
    Quiet cache (invalidateTemplates paths cache).2 := by
  induction paths generalizing cache with
  | nil => exact refl cache
  | cons path rest ih => exact (invalidateTemplate cache path).trans (ih _)

theorem set (cache : Artifacts) (files : Files) (now : Timestamp) (path : Path) (analysis : Analysis)
    (dependencies : List String) : Quiet cache (cache.set files now path analysis dependencies).2 := by
  unfold Artifacts.set
  split
  · exact refl cache
  · exact refl cache
  · split
    · exact refl cache
    · exact ⟨.set _ _ _ _ _, .refl _⟩

theorem setTemplate (cache : Artifacts) (files : Files) (now : Timestamp) (path : Path) (template : Template) :
    Quiet cache (cache.setTemplate files now path template).2 := by
  unfold Artifacts.setTemplate
  split
  · exact refl cache
  · exact refl cache
  · exact ⟨.refl _, .set _ _ _ _ _⟩

theorem sweep (cache : Artifacts) (now : Timestamp) : Quiet cache (cache.sweep now).2 :=
  ⟨.sweep _ _, .sweep _ _⟩

theorem clear (cache : Artifacts) : Quiet cache cache.clear :=
  ⟨.clear _, .clear _⟩

end Quiet

section
variable (cache : Artifacts) (files : Files) (now : Timestamp) (path : Path)

private theorem touched_eq_true : cache.touched files now path = true ↔ ∃ live analysis,
    FileStamp.read files path = .ok (some live) ∧
      (cache.analyses.get now path.key (some live.digest)).1 = some analysis ∧ analysis.stamp.agrees live = false := by
  unfold touched
  simp only [Store.get_eq_some]
  split
  next live entry read found => simp [read, found, and_assoc]
  next other =>
    simp only [Bool.false_eq_true, false_iff, not_exists, not_and]
    rintro live analysis read ⟨entry, found, -⟩
    exact absurd found (other live entry read)

/-- So much is counted for a read of an analysis: a hit if it is served or the file was only touched, a miss if it
is not served and the file was not only touched. -/
def Read.Counted (read : Read) (before after : Artifacts) : Prop :=
  Counts (read.reading.isServed || read.touched).toNat (read.reading.isMissed && !read.touched).toNat 0 0 before after

theorem counts_lookup {digest : Option Digest} {found : Option Analysis}
    (looked : (cache.analyses.get now path.key digest).1 = found) :
    Counts found.isSome.toNat found.isNone.toNat 0 0 cache (cache.lookup now path.key digest).2 :=
  ⟨looked ▸ .get _ _ _ _, .refl _⟩

private theorem counted_of_missing (missing : FileStamp.read files path = .ok none) :
    Read.Counted ⟨(cache.get files now path).1, false⟩ cache (cache.get files now path).2 := by
  have missed : (cache.get files now path).1 = .ok none := get_of_missing missing
  simp only [Read.Counted, missed]
  simp only [Artifacts.get, missing] at missed ⊢
  split
  next stored =>
    rw [if_pos stored] at missed
    have looked := counts_lookup (cache.invalidate path).2 now path (Except.ok.inj missed)
    simpa using (Quiet.invalidate cache path).trans looked
  next absent =>
    rw [if_neg absent] at missed
    exact counts_lookup cache now path (Except.ok.inj missed)

private theorem counted_of_found {live : FileStamp} {analysis : Analysis} (found : FileStamp.read files path = .ok (some live))
    (looked : (cache.analyses.get now path.key (some live.digest)).1 = some analysis) :
    Read.Counted ⟨(cache.get files now path).1, !analysis.stamp.agrees live⟩ cache (cache.get files now path).2 := by
  have hit := counts_lookup cache now path looked
  cases agrees : analysis.stamp.agrees live with
  | true => simpa [Read.Counted, Artifacts.get, found, lookup, looked, agrees] using hit
  | false =>
    have dropped := hit.trans (Quiet.delete (cache.lookup now path.key (some live.digest)).2 path.key)
    simpa [Read.Counted, Artifacts.get, found, lookup, looked, agrees] using dropped

private theorem counted_of_lost {live : FileStamp} (found : FileStamp.read files path = .ok (some live))
    (looked : (cache.analyses.get now path.key (some live.digest)).1 = none) :
    Read.Counted ⟨(cache.get files now path).1, false⟩ cache (cache.get files now path).2 := by
  have miss := counts_lookup cache now path looked
  have dropped := miss.trans (Quiet.invalidate _ path)
  simp only [lookup] at miss dropped
  simp only [Read.Counted, Artifacts.get, found, lookup, looked]
  split
  · simpa using dropped
  · simpa using miss

private theorem counts_get :
    Read.Counted ⟨(cache.get files now path).1, cache.touched files now path⟩ cache (cache.get files now path).2 := by
  cases found : FileStamp.read files path with
  | error error =>
    simp only [Artifacts.get, touched, found]
    exact Quiet.refl cache
  | ok file =>
    cases file with
    | none =>
      have plain : cache.touched files now path = false := by simp [touched, found]
      exact plain ▸ counted_of_missing cache files now path found
    | some live =>
      have shown := touched_eq_true cache files now path
      simp only [found, Except.ok.injEq, Option.some.injEq, exists_and_left, exists_eq_left'] at shown
      cases looked : (cache.analyses.get now path.key (some live.digest)).1 with
      | some analysis =>
        have same : cache.touched files now path = !analysis.stamp.agrees live := by
          rw [Bool.eq_iff_iff, shown]
          simp [looked]
        exact same ▸ counted_of_found cache files now path found looked
      | none =>
        have plain : cache.touched files now path = false := by
          rw [Bool.eq_false_iff, Ne, shown]
          simp [looked]
        exact plain ▸ counted_of_lost cache files now path found looked

/-- Where a file was only touched, nothing is served. -/
theorem get_of_touched (stale : cache.touched files now path = true) : (cache.get files now path).1 = .ok none := by
  obtain ⟨live, analysis, found, looked, disagrees⟩ := (touched_eq_true cache files now path).mp stale
  simp [Artifacts.get, found, lookup, looked, disagrees]

private theorem counts_getTemplate :
    Counts 0 0 (Reading.isServed (cache.getTemplate files now path).1).toNat
      (Reading.isMissed (cache.getTemplate files now path).1).toNat cache (cache.getTemplate files now path).2 := by
  unfold getTemplate
  dsimp only
  split
  · exact ⟨.refl _, .refl _⟩
  · exact ⟨.refl _, (Store.Counts.drop _ _).quiet (.get _ _ _ _)⟩
  · exact ⟨.refl _, .get _ _ _ _⟩

end

theorem counts_apply (now : Timestamp) (cache : Artifacts) (request : Request) :
    let reads := request.reads now cache
    let templates := request.templateReadings now cache
    Counts (reads.countP fun read => read.reading.isServed || read.touched)
      (reads.countP fun read => read.reading.isMissed && !read.touched) (templates.countP Reading.isServed)
      (templates.countP Reading.isMissed) cache (request.apply now cache) := by
  have single {α : Type} (counted : α → Bool) (item : α) : [item].countP counted = (counted item).toNat := by
    cases held : counted item <;> simp [held]
  cases request with
  | get files path =>
    dsimp only [Request.reads, Request.templateReadings]
    rw [single, single]
    exact counts_get cache files now path
  | getTemplate files path =>
    dsimp only [Request.reads, Request.templateReadings]
    rw [single, single]
    exact counts_getTemplate cache files now path
  | set files path analysis dependencies => exact Quiet.set cache files now path analysis dependencies
  | setTemplate files path template => exact Quiet.setTemplate cache files now path template
  | invalidate path => exact Quiet.invalidate cache path
  | invalidateAll paths => exact Quiet.invalidateAll paths cache
  | remove path => exact Quiet.remove cache path
  | invalidateTemplate path => exact Quiet.invalidateTemplate cache path
  | invalidateTemplates paths => exact Quiet.invalidateTemplates paths cache
  | sweep => exact Quiet.sweep cache now
  | clear => exact Quiet.clear cache

theorem counts_run (cache : Artifacts) (requests : List (Timestamp × Request)) :
    let reads := told Request.reads cache requests
    let templates := told Request.templateReadings cache requests
    Counts (reads.countP fun read => read.reading.isServed || read.touched)
      (reads.countP fun read => read.reading.isMissed && !read.touched) (templates.countP Reading.isServed)
      (templates.countP Reading.isMissed) cache (run cache requests) := by
  induction requests generalizing cache with
  | nil => exact Quiet.refl cache
  | cons entry rest ih =>
    simp only [told, List.countP_append]
    exact (counts_apply entry.1 cache entry.2).trans (ih _)

private theorem reading_of_touched (cache : Artifacts) (requests : List (Timestamp × Request)) :
    ∀ read ∈ told Request.reads cache requests, read.touched = true → read.reading = .ok none := by
  induction requests generalizing cache with
  | nil => simp [told]
  | cons entry rest ih =>
    obtain ⟨now, request⟩ := entry
    intro read member
    rcases List.mem_append.mp member with here | later
    · cases request with
      | get files path =>
        rw [List.mem_singleton.mp here]
        exact get_of_touched cache files now path
      | _ => cases here
    · exact ih _ read later

end Artifacts

/-! ### Snapshots -/

namespace Snapshots

inductive Request where
  | set (project : Path) (aggregate : Json) (manifest : Manifest)
  | get (files : Files) (project : Path)
  | invalidate (project : Path)
  | invalidateUncovered (paths : List String)
  | sweep
  | clear

def Request.apply (now : Timestamp) (cache : Snapshots) : Request → Snapshots
  | .set project aggregate manifest => (cache.set now project aggregate manifest).2
  | .get files project => (cache.get files now project).2
  | .invalidate project => (cache.invalidate project).2
  | .invalidateUncovered paths => (cache.invalidateUncovered now paths).2
  | .sweep => (cache.sweep now).2
  | .clear => cache.clear

def run (cache : Snapshots) : List (Timestamp × Request) → Snapshots
  | [] => cache
  | (now, request) :: rest => run (request.apply now cache) rest

def Request.readings (now : Timestamp) (cache : Snapshots) : Request → List (Reading Snapshot)
  | .get files project => [(cache.get files now project).1]
  | _ => []

def readings (cache : Snapshots) : List (Timestamp × Request) → List (Reading Snapshot)
  | [] => []
  | (now, request) :: rest => request.readings now cache ++ readings (request.apply now cache) rest

private theorem counts_get (cache : Snapshots) (files : Files) (now : Timestamp) (project : Path) :
    Store.Counts (Reading.isServed (cache.get files now project).1).toNat
      (Reading.isMissed (cache.get files now project).1).toNat cache.store (cache.get files now project).2.store := by
  unfold get
  dsimp only
  split
  · exact .get _ _ _ _
  · split
    · exact .refl _
    · exact (Store.Counts.drop _ _).quiet (.get _ _ _ _)
    · exact .get _ _ _ _

theorem counts_dropMissing (now : Timestamp) (paths keys : List String) (cache : Snapshots) :
    Store.Counts 0 0 cache.store (dropMissing now paths keys cache).2.store := by
  induction keys generalizing cache with
  | nil => exact .refl _
  | cons key rest ih =>
    rw [dropMissing]
    split
    · exact (Store.Counts.drop cache.store key).quiet (ih _)
    · exact ih cache

theorem counts_apply (now : Timestamp) (cache : Snapshots) (request : Request) :
    Store.Counts ((request.readings now cache).countP Reading.isServed)
      ((request.readings now cache).countP Reading.isMissed) cache.store (request.apply now cache).store := by
  cases request with
  | get files project =>
    have single (counted : Reading Snapshot → Bool) (item : Reading Snapshot) :
        [item].countP counted = (counted item).toNat := by
      cases held : counted item <;> simp [held]
    rw [Request.readings, single, single]
    exact counts_get cache files now project
  | set project aggregate manifest => exact .set _ _ _ _ _
  | invalidate project => exact .drop _ _
  | invalidateUncovered paths => exact counts_dropMissing now paths _ cache
  | sweep => exact .sweep _ _
  | clear => exact .clear _

theorem counts_run (cache : Snapshots) (requests : List (Timestamp × Request)) :
    Store.Counts ((readings cache requests).countP Reading.isServed) ((readings cache requests).countP Reading.isMissed)
      cache.store (run cache requests).store := by
  induction requests generalizing cache with
  | nil => exact .refl _
  | cons entry rest ih =>
    rw [readings, List.countP_append, List.countP_append]
    exact (counts_apply entry.1 cache entry.2).trans (ih _)

end Snapshots

/-! ### All counters -/

private theorem Artifacts.counted_as_answered_iff {reads : List Artifacts.Read}
    (unserved : ∀ read ∈ reads, read.touched = true → read.reading = .ok none) :
    (reads.countP (fun read => read.reading.isServed || read.touched) = reads.countP (·.reading.isServed) ∧
      reads.countP (fun read => read.reading.isMissed && !read.touched) = reads.countP (·.reading.isMissed)) ↔
      ∀ read ∈ reads, read.touched = false := by
  induction reads with
  | nil => simp
  | cons read rest ih =>
    have later := ih fun other member => unserved other (List.mem_cons_of_mem _ member)
    have more : rest.countP (·.reading.isServed) ≤ rest.countP fun read => read.reading.isServed || read.touched :=
      List.countP_mono_left fun other _ served => by simp [served]
    simp only [List.countP_cons, List.forall_mem_cons, ← later]
    cases touched : read.touched with
    | false => simp
    | true =>
      -- the hits are already one too many here, and no later read counts fewer hits than are served
      have missed := unserved read List.mem_cons_self touched
      simp [missed]
      omega

/-- The counters of templates and of snapshots say how many reads were served and how many were answered with
nothing. Those of analyses take each read of a file that was only touched for a hit, though it is answered with
nothing, and so they say the same exactly if there was no such read. -/
theorem run_counters_truthful_iff (limits : Artifacts.Limits) (requests : List (Timestamp × Artifacts.Request))
    (snapshotLimits : Store.Limits) (snapshotRequests : List (Timestamp × Snapshots.Request)) :
    let artifacts := Artifacts.run (.empty limits) requests
    let snapshots := Snapshots.run (.empty snapshotLimits) snapshotRequests
    let reads := Artifacts.told Artifacts.Request.reads (.empty limits) requests
    let templates := Artifacts.told Artifacts.Request.templateReadings (.empty limits) requests
    let readings := Snapshots.readings (.empty snapshotLimits) snapshotRequests
    (artifacts.analyses.stats.hits = reads.countP (fun read => read.reading.isServed || read.touched) ∧
      artifacts.analyses.stats.misses = reads.countP fun read => read.reading.isMissed && !read.touched) ∧
    (∀ read ∈ reads, read.touched = true → read.reading = .ok none) ∧
    (artifacts.analyses.stats.hits = reads.countP (·.reading.isServed) ∧
        artifacts.analyses.stats.misses = reads.countP (·.reading.isMissed) ↔
      ∀ read ∈ reads, read.touched = false) ∧
    (artifacts.templates.stats.hits = templates.countP Reading.isServed ∧
      artifacts.templates.stats.misses = templates.countP Reading.isMissed) ∧
    (snapshots.store.stats.hits = readings.countP Reading.isServed ∧
      snapshots.store.stats.misses = readings.countP Reading.isMissed) := by
  intro artifacts snapshots reads templates readings
  have counted := Artifacts.counts_run (.empty limits) requests
  have kept := Snapshots.counts_run (.empty snapshotLimits) snapshotRequests
  have hits : artifacts.analyses.stats.hits = reads.countP (fun read => read.reading.isServed || read.touched) :=
    counted.analyses.hits.trans (Nat.zero_add _)
  have misses : artifacts.analyses.stats.misses = reads.countP fun read => read.reading.isMissed && !read.touched :=
    counted.analyses.misses.trans (Nat.zero_add _)
  have unserved : ∀ read ∈ reads, read.touched = true → read.reading = .ok none :=
    Artifacts.reading_of_touched (.empty limits) requests
  refine ⟨⟨hits, misses⟩, unserved, ?_, ⟨?_, ?_⟩, ?_, ?_⟩
  · rw [hits, misses]
    exact Artifacts.counted_as_answered_iff unserved
  · exact counted.templates.hits.trans (Nat.zero_add _)
  · exact counted.templates.misses.trans (Nat.zero_add _)
  · exact kept.hits.trans (Nat.zero_add _)
  · exact kept.misses.trans (Nat.zero_add _)

def blank (modified : Timestamp) : Files where
  root := .directory [("a.ts", .file .empty modified)]
  current := []

def retouched : List (Timestamp × Artifacts.Request) :=
  let stamp : FileStamp := { path := ⟨"a.ts"⟩, digest := .ofBytes .empty, size := 0, modified := .epoch }
  [(.epoch, .set (blank .epoch) ⟨"a.ts"⟩ (.ofStamp stamp .null []) []),
    (.epoch, .get (blank (Timestamp.epoch.addMillis 5000)) ⟨"a.ts"⟩)]

theorem retouched_counts_hit :
    let cache := Artifacts.run (.empty {}) retouched
    let reads := Artifacts.told Artifacts.Request.reads (.empty {}) retouched
    reads.map (·.reading.isMissed) = [true] ∧ reads.countP (·.reading.isServed) = 0 ∧
      cache.analyses.stats.hits = 1 ∧ cache.analyses.stats.misses = 0 := by
  decide +kernel

end FreshDocs
