import FreshDocs.Artifacts.Snapshots
import FreshDocs.Proofs.PathKeys
import FreshDocs.Proofs.StoreCoherence
import FreshDocs.Proofs.StoreContents

/-! What can be found among the snapshots. Every request but `set` only takes snapshots away, and what
is served was checked against the live files of its manifest. -/

namespace FreshDocs

theorem Store.peek_eq_some {α : Type} {store : Store α} {now : Timestamp} {key : String} {value : α} :
    store.peek now key = some value ↔
      ∃ entry, store.find? key = some entry ∧ store.isExpired now entry = false ∧ entry.value = value := by
  unfold peek
  cases store.find? key with
  | none => simp
  | some entry => cases expired : store.isExpired now entry <;> simp [expired]

theorem Store.get_of_peek_none {α : Type} {store : Store α} {now : Timestamp} {key : String}
    (missed : store.peek now key = none) (digest : Option Digest) : (store.get now key digest).1 = none := by
  unfold peek at missed
  unfold get
  cases found : store.find? key with
  | none => rfl
  | some entry =>
    simp only [found, ite_eq_left_iff, reduceCtorEq, imp_false, Bool.not_eq_true, Bool.not_eq_false] at missed
    simp [missed]

/-- A later time finds no entry younger. -/
theorem Store.isExpired_mono {α : Type} {store : Store α} {now later : Timestamp} {entry : Store.Entry α} (passed : now ≤ later)
    (fresh : store.isExpired later entry = false) : store.isExpired now entry = false := by
  have young : ¬(store.limits.ttl : Int) * 1000000 < later.nanosSince entry.storedAt := of_decide_eq_false fresh
  refine decide_eq_false fun old => young ?_
  exact Int.lt_of_lt_of_le old (Int.sub_le_sub_right passed _)

namespace Snapshots

structure Thins (before after : Snapshots) : Prop where
  retains : before.store.Retains after.store
  steps : Store.Steps before.store after.store

namespace Thins

theorem refl (cache : Snapshots) : Thins cache cache :=
  ⟨.refl _, .refl⟩

theorem trans {first second third : Snapshots} (one : Thins first second) (two : Thins second third) : Thins first third :=
  ⟨one.retains.trans two.retains, one.steps.trans two.steps⟩

theorem delete (cache : Snapshots) (key : String) : Thins cache ⟨(cache.store.delete key).2⟩ :=
  ⟨.drop _ _, .single (.drop _ _)⟩

theorem lookup (now : Timestamp) (cache : Snapshots) (key : String) (digest : Option Digest) :
    Thins cache (cache.lookup now key digest).2 :=
  ⟨.get _ _ _ _, Store.steps_get _ _ _ _⟩

theorem get (files : Files) (now : Timestamp) (cache : Snapshots) (project : Path) :
    Thins cache (cache.get files now project).2 := by
  unfold Snapshots.get
  dsimp only
  split
  · exact lookup now cache _ none
  · split
    · exact refl cache
    · exact (delete cache _).trans (lookup now _ _ none)
    · exact lookup now cache _ _

theorem dropMissing (now : Timestamp) (paths keys : List String) (cache : Snapshots) :
    Thins cache (dropMissing now paths keys cache).2 := by
  induction keys generalizing cache with
  | nil => exact refl cache
  | cons key rest ih =>
    rw [Snapshots.dropMissing]
    split
    · exact (delete cache key).trans (ih _)
    · exact ih cache

theorem clear (cache : Snapshots) : Thins cache cache.clear :=
  ⟨.clear _, .single (.clear _)⟩

theorem sweep (now : Timestamp) (cache : Snapshots) : Thins cache (cache.sweep now).2 :=
  ⟨.sweep _ _, Store.steps_sweep _ _⟩

end Thins

/-! ### What is served -/

theorem verify_true {files : Files} {manifest : List (String × Digest)} (checked : verify files manifest = .ok true) :
    ∀ entry ∈ manifest, FileStamp.digestOf files ⟨entry.1⟩ = .ok (some entry.2) := by
  induction manifest with
  | nil => simp
  | cons first rest ih =>
    obtain ⟨key, digest⟩ := first
    rw [verify] at checked
    split at checked
    next => cases checked
    next live read =>
      split at checked
      next same => exact List.forall_mem_cons.mpr ⟨same ▸ read, ih checked⟩
      next => cases checked

/-- A check goes on past the files that are found unchanged. -/
theorem verify_append {files : Files} {checked : List (String × Digest)}
    (passed : ∀ entry ∈ checked, FileStamp.digestOf files ⟨entry.1⟩ = .ok (some entry.2)) (rest : List (String × Digest)) :
    verify files (checked ++ rest) = verify files rest := by
  induction checked with
  | nil => rfl
  | cons entry others ih =>
    obtain ⟨live, passed⟩ := List.forall_mem_cons.mp passed
    simp only [List.cons_append, verify, live, if_true, ih passed]

/-- Checking a manifest fails at the first file that cannot be read, after all before it were found unchanged. -/
theorem verify_error_iff {files : Files} {manifest : List (String × Digest)} {error : StoreError} :
    verify files manifest = .error error ↔ ∃ checked key digest rest, manifest = checked ++ (key, digest) :: rest ∧
      (∀ entry ∈ checked, FileStamp.digestOf files ⟨entry.1⟩ = .ok (some entry.2)) ∧
      FileStamp.digestOf files ⟨key⟩ = .error error := by
  constructor
  · intro failed
    induction manifest with
    | nil => cases failed
    | cons first rest ih =>
      obtain ⟨key, digest⟩ := first
      rw [verify] at failed
      split at failed
      next unreadable =>
        cases failed
        exact ⟨[], key, digest, rest, rfl, by simp, unreadable⟩
      next live read =>
        split at failed
        next same =>
          obtain ⟨checked, place, expected, others, rfl, passed, unreadable⟩ := ih failed
          exact ⟨(key, digest) :: checked, place, expected, others, rfl,
            List.forall_mem_cons.mpr ⟨same ▸ read, passed⟩, unreadable⟩
        next => cases failed
  · intro ⟨checked, key, digest, rest, split, passed, unreadable⟩
    rw [split, verify_append passed, verify, unreadable]

/-- A snapshot is served when its whole manifest is live, and not asked for again when a file of it cannot be read. -/
theorem get_cases (files : Files) (now : Timestamp) (cache : Snapshots) (project : Path) :
    (cache.get files now project).1 = .ok none ∨
      ∃ entry, cache.store.find? project.key = some entry ∧ cache.store.isExpired now entry = false ∧
        ((∃ error, verify files entry.value.manifest.toList = .error error ∧ (cache.get files now project).1 = .error error) ∨
          verify files entry.value.manifest.toList = .ok true ∧ (cache.get files now project).1 = .ok (some entry.value)) := by
  unfold Snapshots.get
  dsimp only
  split
  next missed =>
    left
    simp only [lookup, Store.get_of_peek_none missed]
  next snapshot peeked =>
    obtain ⟨entry, found, fresh, rfl⟩ := Store.peek_eq_some.mp peeked
    split
    next error failed => exact .inr ⟨entry, found, fresh, .inl ⟨error, failed, rfl⟩⟩
    next =>
      left
      have dropped : (cache.store.delete project.key).2.find? project.key = none := by
        simp [Store.delete, Store.find?_drop]
      simp only [lookup, Store.get_of_absent dropped]
    next checked =>
      by_cases same : manifestDigest entry.value.manifest = entry.digest
      · refine .inr ⟨entry, found, fresh, .inr ⟨checked, ?_⟩⟩
        simp [lookup, Store.get, found, fresh, same]
      · left
        simp [lookup, Store.get, found, same]

end Snapshots
end FreshDocs
