import FreshDocs.Proofs.StoreSteps

/-! What can be found in a store comes from what was put into it. Apart from that, a request only
ever takes entries away; their values and digests stay as they are. -/

namespace FreshDocs.Store

variable {α : Type}

/-- All that can be found afterwards could be found before, and only its place in the order of uses was
another one. -/
structure Retains (before after : Store α) : Prop where
  limits : after.limits = before.limits
  entries : ∀ key entry, after.find? key = some entry → ∃ tick, before.find? key = some { entry with tick }

namespace Retains

theorem refl (store : Store α) : Retains store store :=
  ⟨rfl, fun _ entry present => ⟨entry.tick, present⟩⟩

theorem trans {first second third : Store α} (one : Retains first second) (two : Retains second third) :
    Retains first third := by
  refine ⟨two.limits.trans one.limits, ?_⟩
  intro key entry present
  obtain ⟨tick, found⟩ := two.entries key entry present
  exact one.entries key { entry with tick } found

theorem drop (store : Store α) (key : String) : Retains store (store.drop key) := by
  refine ⟨?_, ?_⟩
  · unfold Store.drop
    split <;> rfl
  · intro other entry present
    rw [find?_drop] at present
    split at present
    · cases present
    · exact ⟨entry.tick, present⟩

theorem drops (keys : List String) (store : Store α) : Retains store (keys.foldl Store.drop store) := by
  induction keys generalizing store with
  | nil => exact refl store
  | cons key rest ih => exact (drop store key).trans (ih (store.drop key))

theorem use {store : Store α} {key : String} {entry : Entry α} (present : store.find? key = some entry) :
    Retains store (store.use key entry) := by
  refine ⟨rfl, ?_⟩
  intro other found held
  rw [find?_use] at held
  split at held
  next same =>
    cases held
    exact ⟨entry.tick, same ▸ present⟩
  next => exact ⟨found.tick, held⟩

/-- What a store retains does not depend on its counters. -/
theorem count {before after : Store α} (retains : Retains before after) (hits misses evictions expirations : Nat) :
    Retains before { after with hits, misses, evictions, expirations } :=
  ⟨retains.limits, retains.entries⟩

theorem evictFrom (keys : List String) (store : Store α) : Retains store (store.evictFrom keys) := by
  induction keys generalizing store with
  | nil => exact refl store
  | cons key rest ih =>
    rw [Store.evictFrom]
    split
    · exact ((drop store key).count _ _ _ _).trans (ih _)
    · exact refl store

theorem evict (store : Store α) : Retains store store.evict := by
  unfold Store.evict
  split
  · exact evictFrom _ _
  · exact refl store

theorem clear (store : Store α) : Retains store store.clear := by
  refine ⟨rfl, ?_⟩
  intro key entry present
  simp [Store.clear, find?] at present

theorem sweep (store : Store α) (now : Timestamp) : Retains store (store.sweep now).2 :=
  (drops (store.expiredKeys now) store).count _ _ _ _

theorem get (store : Store α) (now : Timestamp) (key : String) (digest : Option Digest) :
    Retains store (store.get now key digest).2 := by
  unfold Store.get
  split
  next => exact (refl store).count _ _ _ _
  next entry present =>
    dsimp only
    split
    · exact (drop store key).count _ _ _ _
    · exact (use present).count _ _ _ _

end Retains

/-- All that can be found afterwards could be found before, with the same value and digest. -/
def Narrows (before after : Store α) : Prop :=
  ∀ key entry, after.find? key = some entry →
    ∃ old, before.find? key = some old ∧ old.value = entry.value ∧ old.digest = entry.digest

theorem Retains.narrows {before after : Store α} (retains : Retains before after) : Narrows before after := by
  intro key entry present
  obtain ⟨tick, found⟩ := retains.entries key entry present
  exact ⟨_, found, rfl, rfl⟩

namespace Narrows

theorem refl (store : Store α) : Narrows store store :=
  (Retains.refl store).narrows

theorem trans {first second third : Store α} (one : Narrows first second) (two : Narrows second third) :
    Narrows first third := by
  intro key entry present
  obtain ⟨middle, found, value, digest⟩ := two key entry present
  obtain ⟨old, held, sameValue, sameDigest⟩ := one key middle found
  exact ⟨old, held, sameValue.trans value, sameDigest.trans digest⟩

theorem drop (store : Store α) (key : String) : Narrows store (store.drop key) :=
  (Retains.drop store key).narrows

theorem sweep (store : Store α) (now : Timestamp) : Narrows store (store.sweep now).2 :=
  (Retains.sweep store now).narrows

theorem clear (store : Store α) : Narrows store store.clear :=
  (Retains.clear store).narrows

theorem get (store : Store α) (now : Timestamp) (key : String) (digest : Option Digest) :
    Narrows store (store.get now key digest).2 :=
  (Retains.get store now key digest).narrows

end Narrows

/-- What is served is held under the key, with the digest that was asked for. -/
theorem get_some {store : Store α} {now : Timestamp} {key : String} {digest : Option Digest} {value : α}
    (served : (store.get now key digest).1 = some value) :
    ∃ entry, store.find? key = some entry ∧ entry.value = value ∧ ∀ asked ∈ digest, entry.digest = asked := by
  unfold get at served
  split at served
  next => cases served
  next entry present =>
    dsimp only at served
    split at served
    next => cases served
    next fresh =>
      cases served
      refine ⟨entry, present, rfl, ?_⟩
      rintro asked ⟨⟩
      simp only [Option.any_some, Bool.or_eq_true, decide_eq_true_eq, not_or, Decidable.not_not] at fresh
      exact fresh.2.symm

theorem get_of_absent {store : Store α} {key : String} (absent : store.find? key = none) (now : Timestamp)
    (digest : Option Digest) : (store.get now key digest).1 = none := by
  simp [get, absent]

/-- What is found after a value was stored is this value, or was found before. -/
theorem find?_set [ToJson α] {store : Store α} {now : Timestamp} {key other : String} {value : α}
    {digest : Digest} {entry : Entry α} (present : (store.set now key value (some digest)).find? other = some entry) :
    (key = other ∧ entry.value = value ∧ entry.digest = digest) ∨
      ∃ tick, store.find? other = some { entry with tick } := by
  obtain ⟨tick, found⟩ := (Retains.evict _).entries other entry present
  rw [find?_put] at found
  split at found
  next same =>
    have stored := (Option.some.inj found).symm
    exact .inl ⟨same, congrArg Entry.value stored, congrArg Entry.digest stored⟩
  next => exact .inr ((Retains.drop store key).entries other { entry with tick } found)

/-- Only what was stored last is found under its key. -/
theorem find?_set_self [ToJson α] {store : Store α} {now : Timestamp} {key : String} {value : α} {digest : Digest}
    {entry : Entry α} (present : (store.set now key value (some digest)).find? key = some entry) :
    entry.value = value ∧ entry.digest = digest := by
  obtain ⟨tick, found⟩ := (Retains.evict _).entries key entry present
  rw [find?_put, if_pos rfl] at found
  have stored := (Option.some.inj found).symm
  exact ⟨congrArg Entry.value stored, congrArg Entry.digest stored⟩

theorem limits_set [ToJson α] (store : Store α) (now : Timestamp) (key : String) (value : α) (digest : Option Digest) :
    (store.set now key value digest).limits = store.limits :=
  (Retains.evict _).limits.trans (Retains.drop store key).limits

end FreshDocs.Store
