import FreshDocs.Artifacts.Cache
import FreshDocs.Proofs.StoreContents

/-! What can be read from the stores of analyses and templates. Dropping never adds anything, and
whatever is read belongs to the content that the file has at this moment. -/

namespace FreshDocs

/-- A cascade begins with the path it starts from. -/
theorem Dependencies.mem_visit (graph : Dependencies) (fuel : Nat) (queue : List String)
    {visited : List String} {path : String} (seen : path ∈ visited) : path ∈ graph.visit fuel queue visited := by
  induction fuel generalizing queue visited with
  | zero => cases queue <;> exact seen
  | succ fuel ih =>
    cases queue with
    | nil => exact seen
    | cons next rest =>
      rw [visit]
      split
      · exact ih _ seen
      · exact ih _ (List.mem_append_left _ seen)

theorem Dependencies.mem_cascade (graph : Dependencies) (start : String) : start ∈ graph.cascade start := by
  have bound (sizes : List PathSet) (count : Nat) : count ≤ sizes.foldl (· + ·.size) count := by
    induction sizes generalizing count with
    | nil => exact Nat.le_refl _
    | cons size rest ih => exact Nat.le_trans (Nat.le_add_right _ _) (ih _)
  have some := bound graph.reverse.values 1
  rw [cascade]
  obtain ⟨fuel, shape⟩ := Nat.exists_eq_add_of_le' some
  rw [shape]
  simp only [visit, List.contains_nil, Bool.false_eq_true, if_false, List.nil_append]
  exact mem_visit _ _ _ (List.mem_singleton_self start)

namespace Artifacts

structure Narrows (before after : Artifacts) : Prop where
  analyses : Store.Narrows before.analyses after.analyses
  templates : Store.Narrows before.templates after.templates

namespace Narrows

theorem refl (cache : Artifacts) : Narrows cache cache :=
  ⟨.refl _, .refl _⟩

theorem trans {first second third : Artifacts} (one : Narrows first second) (two : Narrows second third) :
    Narrows first third :=
  ⟨one.analyses.trans two.analyses, one.templates.trans two.templates⟩

theorem dropAll (keys : List String) (cache : Artifacts) : Narrows cache (dropAll keys cache).2 := by
  induction keys generalizing cache with
  | nil => exact refl cache
  | cons key rest ih =>
    have first : Narrows cache { cache with analyses := (cache.analyses.delete key).2 } :=
      ⟨.drop cache.analyses key, .refl _⟩
    exact first.trans (ih _)

theorem invalidate (cache : Artifacts) (path : Path) : Narrows cache (cache.invalidate path).2 :=
  dropAll _ cache

theorem invalidateAll (paths : List Path) (cache : Artifacts) : Narrows cache (invalidateAll paths cache).2 := by
  induction paths generalizing cache with
  | nil => exact refl cache
  | cons path rest ih => exact (invalidate cache path).trans (ih _)

theorem remove (cache : Artifacts) (path : Path) : Narrows cache (cache.remove path).2 :=
  have dropped := invalidate cache path
  ⟨dropped.analyses, dropped.templates.trans (.drop _ _)⟩

theorem invalidateTemplate (cache : Artifacts) (path : Path) : Narrows cache (cache.invalidateTemplate path).2 :=
  ⟨.refl _, .drop _ _⟩

theorem invalidateTemplates (paths : List Path) (cache : Artifacts) :
    Narrows cache (invalidateTemplates paths cache).2 := by
  induction paths generalizing cache with
  | nil => exact refl cache
  | cons path rest ih => exact (invalidateTemplate cache path).trans (ih _)

theorem sweep (cache : Artifacts) (now : Timestamp) : Narrows cache (cache.sweep now).2 :=
  ⟨.sweep _ _, .sweep _ _⟩

theorem clear (cache : Artifacts) : Narrows cache cache.clear :=
  ⟨.clear _, .clear _⟩

theorem lookup (cache : Artifacts) (now : Timestamp) (key : String) (digest : Option Digest) :
    Narrows cache (cache.lookup now key digest).2 :=
  ⟨.get _ _ _ _, .refl _⟩

theorem get (cache : Artifacts) (files : Files) (now : Timestamp) (path : Path) :
    Narrows cache (cache.get files now path).2 := by
  unfold Artifacts.get
  dsimp only
  split
  next => exact refl cache
  next =>
    split
    · exact (invalidate cache path).trans (lookup _ _ _ _)
    · exact lookup _ _ _ _
  next live found =>
    have read := lookup cache now path.key (some live.digest)
    split
    next analysis after served =>
      rw [served] at read
      split
      · exact read
      · exact read.trans ⟨.drop _ _, .refl _⟩
    next after served =>
      rw [served] at read
      split
      · exact read.trans (invalidate after path)
      · exact read

theorem getTemplate (cache : Artifacts) (files : Files) (now : Timestamp) (path : Path) :
    Narrows cache (cache.getTemplate files now path).2 := by
  unfold Artifacts.getTemplate
  dsimp only
  split
  next => exact refl cache
  next => exact ⟨.refl _, (Store.Narrows.drop _ _).trans (.get _ _ _ _)⟩
  next => exact ⟨.refl _, .get _ _ _ _⟩

end Narrows

/-! ### Reading -/

theorem find?_dropAll {keys : List String} {key : String} (listed : key ∈ keys) (cache : Artifacts) :
    (dropAll keys cache).2.analyses.find? key = none := by
  induction keys generalizing cache with
  | nil => cases listed
  | cons first rest ih =>
    rcases List.mem_cons.mp listed with rfl | later
    · rw [← Option.not_isSome_iff_eq_none]
      intro present
      obtain ⟨entry, held⟩ := Option.isSome_iff_exists.mp present
      obtain ⟨old, left, -⟩ := (Narrows.dropAll rest _).analyses key entry held
      simp [Store.find?_drop] at left
    · exact ih later _

theorem find?_invalidate (cache : Artifacts) (path : Path) :
    (cache.invalidate path).2.analyses.find? path.key = none :=
  find?_dropAll (cache.graph.mem_cascade path.key) cache

variable {cache : Artifacts} {files : Files} {now : Timestamp} {path : Path}

theorem get_of_error {error : StoreError} (unreadable : FileStamp.read files path = .error error) :
    (cache.get files now path).1 = .error error := by
  simp [Artifacts.get, unreadable]

/-- Nothing is served for a file that is not there. -/
theorem get_of_missing (missing : FileStamp.read files path = .ok none) :
    (cache.get files now path).1 = .ok none := by
  simp only [Artifacts.get, missing, lookup]
  split
  next present => rw [Store.get_of_absent (find?_invalidate cache path)]
  next absent =>
    have gone : cache.analyses.find? path.key = none := by simpa [Store.digest?] using absent
    rw [Store.get_of_absent gone]

/-- What is served was stored under the key of the path, and agrees with the live file. -/
theorem get_of_live {live : FileStamp} (found : FileStamp.read files path = .ok (some live)) :
    (cache.get files now path).1 = .ok none ∨
      ∃ entry, cache.analyses.find? path.key = some entry ∧ entry.digest = live.digest ∧
        entry.value.stamp.agrees live = true ∧ (cache.get files now path).1 = .ok (some entry.value) := by
  simp only [Artifacts.get, found, lookup]
  cases served : (cache.analyses.get now path.key (some live.digest)).1 with
  | none =>
    left
    split
    next same => cases same
    next => split <;> rfl
  | some analysis =>
    obtain ⟨entry, held, rfl, same⟩ := Store.get_some served
    dsimp only
    by_cases agrees : entry.value.stamp.agrees live = true
    · exact .inr ⟨entry, held, same _ rfl, agrees, by rw [if_pos agrees]⟩
    · exact .inl (by rw [if_neg agrees])

theorem getTemplate_of_error {error : StoreError} (unreadable : FileStamp.read files path = .error error) :
    (cache.getTemplate files now path).1 = .error error := by
  simp [Artifacts.getTemplate, unreadable]

theorem getTemplate_of_missing (missing : FileStamp.read files path = .ok none) :
    (cache.getTemplate files now path).1 = .ok none := by
  have gone : (cache.templates.delete path.key).2.find? path.key = none := by
    simp [Store.delete, Store.find?_drop]
  simp only [Artifacts.getTemplate, missing]
  rw [Store.get_of_absent gone]

theorem getTemplate_of_live {live : FileStamp} (found : FileStamp.read files path = .ok (some live)) :
    (cache.getTemplate files now path).1 = .ok none ∨
      ∃ entry, cache.templates.find? path.key = some entry ∧ entry.digest = live.digest ∧
        (cache.getTemplate files now path).1 = .ok (some entry.value) := by
  simp only [Artifacts.getTemplate, found]
  cases served : (cache.templates.get now path.key (some live.digest)).1 with
  | none => exact .inl rfl
  | some template =>
    obtain ⟨entry, held, rfl, same⟩ := Store.get_some served
    exact .inr ⟨entry, held, same _ rfl, rfl⟩

/-! ### Storing -/

theorem set_of_live {analysis : Analysis} {dependencies : List String} {live : FileStamp}
    (found : FileStamp.read files path = .ok (some live)) (same : live.digest = analysis.stamp.digest) :
    cache.set files now path analysis dependencies =
      (.ok true,
        { cache with
          analyses := cache.analyses.set now path.key { analysis with dependencies } (some analysis.stamp.digest)
          graph := cache.graph.record path.key dependencies }) := by
  simp [Artifacts.set, found, same]

theorem setTemplate_of_live {template : Template} {live : FileStamp}
    (found : FileStamp.read files path = .ok (some live)) :
    cache.setTemplate files now path template =
      (.ok true,
        { cache with
          templates := cache.templates.set now path.key template (some template.sourceDigest) }) := by
  simp [Artifacts.setTemplate, found]

end Artifacts
end FreshDocs
