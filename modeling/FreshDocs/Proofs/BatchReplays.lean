import FreshDocs.Proofs.BatchInvalidation
import Mathlib.Data.Set.Insert

/-! A plan beside the files that it is made for. Changes may be carried out one after the other on the set of paths
there were, and what is left of the paths they mention is what the plan takes to be left: of several changes of a path,
the last one decides in both. -/

namespace FreshDocs
open Std

namespace Change

def carryOut (present : Set String) (change : Change) : Set String :=
  match change.kind with
  | .modified | .added => insert change.key present
  | .deleted => present \ {change.key}
  | .renamed source => insert change.key (present \ {source.key})

private theorem source?_eq_some {change : Change} {source : Path} :
    change.source? = some source ↔ change.kind = .renamed source := by
  unfold source?
  cases change.kind <;> simp

private theorem mem_carryOut_self {present : Set String} {change : Change} :
    change.key ∈ change.carryOut present ↔ change.kind ≠ .deleted := by
  unfold carryOut
  cases change.kind <;> simp

private theorem mem_carryOut_of_ne {present : Set String} {change : Change} {key : String} (other : change.key ≠ key) :
    key ∈ change.carryOut present ↔ key ∈ present ∧ ∀ source, change.source? = some source → source.key ≠ key := by
  unfold carryOut source?
  cases change.kind with
  | modified | added => simp [Ne.symm other]
  | deleted => simp [Ne.symm other]
  | renamed source => simp [Ne.symm other, eq_comm]

end Change

namespace Batch.Plan

private theorem note_self {fates : Fates} {change : Change} :
    (note fates change)[change.key]? = some (decide (change.kind = .deleted)) := by
  simp [note]

private theorem note_of_ne {fates : Fates} {change : Change} {key : String} (other : change.key ≠ key) :
    (note fates change)[key]? =
      if ∃ source, change.source? = some source ∧ source.key = key then some true else fates[key]? := by
  unfold note
  cases change.source? with
  | none => simp [ExtTreeMap.getElem?_insert, other]
  | some source => simp [ExtTreeMap.getElem?_insert, other]

/-- What is written down about a path is whether it is gone. -/
def Tells (fates : Fates) (present : Set String) : Prop :=
  ∀ key gone, fates[key]? = some gone → (gone = true ↔ key ∉ present)

theorem Tells.note {fates : Fates} {present : Set String} (tells : Tells fates present) (change : Change) :
    Tells (Plan.note fates change) (change.carryOut present) := by
  intro key gone known
  by_cases same : change.key = key
  · subst same
    rw [note_self, Option.some.injEq] at known
    rw [Change.mem_carryOut_self, ← known]
    simp
  · rw [note_of_ne same] at known
    rw [Change.mem_carryOut_of_ne same]
    split at known
    next moved =>
      cases known
      obtain ⟨source, from_here, away⟩ := moved
      simp [from_here, away]
    next unmoved =>
      have stays : ∀ source, change.source? = some source → source.key ≠ key :=
        fun source moves away => unmoved ⟨source, moves, away⟩
      rw [tells key gone known, and_iff_left stays]

theorem Tells.foldl {fates : Fates} {present : Set String} (tells : Tells fates present) (changes : List Change) :
    Tells (changes.foldl Plan.note fates) (changes.foldl Change.carryOut present) := by
  induction changes generalizing fates present with
  | nil => exact tells
  | cons change rest ih => exact ih (tells.note change)

section
variable {settings : Settings} {cached : Nat} {sections : Sections} {changes : List Change} {key : String}

theorem mem_removed : key ∈ (ofChanges settings cached sections changes).removed ↔
    (changes.foldl note ∅)[key]? = some true := by
  rw [ofChanges, ExtTreeMap.mem_keys, ExtTreeMap.mem_iff_isSome_getElem?, ExtTreeMap.getElem?_filter']
  cases (changes.foldl note ∅)[key]? with
  | none => simp
  | some gone => cases gone <;> simp [Option.filter]

private theorem mem_changed : key ∈ (ofChanges settings cached sections changes).changed ↔
    ∃ gone, (changes.foldl note ∅)[key]? = some gone := by
  rw [← Option.isSome_iff_exists, ← ExtTreeMap.mem_iff_isSome_getElem?, ← ExtTreeMap.mem_keys]
  rfl

end

private theorem isTemplate_iff {settings : Settings} {key : String} :
    settings.isTemplate key = true ↔ ∃ extension, (Path.mk key).extension? = some extension ∧
      ∃ known ∈ settings.templateExtensions, known.toList.map Char.toLower = extension.toList.map Char.toLower := by
  unfold Settings.isTemplate
  cases (Path.mk key).extension? <;> simp

/-- Whatever the changes are, and whatever there was before, a plan lists the paths that are mentioned, and of these
as removed the ones that are not there once all changes were carried out. Templates among them are listed as well, and
if there are some, the batch starts anew or refreshes templates. -/
theorem ofChanges_carries_out (settings : Settings) (cached : Nat) (sections : Sections) (changes : List Change)
    (existing : Set String) :
    let plan := ofChanges settings cached sections changes
    let present := changes.foldl Change.carryOut existing
    (∀ key, key ∈ plan.changed ↔
      ∃ change ∈ changes, key = change.key ∨ ∃ source, change.kind = .renamed source ∧ key = source.key) ∧
    (∀ key, key ∈ plan.removed ↔ key ∈ plan.changed ∧ key ∉ present) ∧
    (∀ key, key ∈ plan.templates ↔ key ∈ plan.changed ∧ ∃ extension, (Path.mk key).extension? = some extension ∧
      ∃ known ∈ settings.templateExtensions, known.toList.map Char.toLower = extension.toList.map Char.toLower) ∧
    (plan.strategy = .sections ∨ plan.strategy = .incremental → plan.templates = []) := by
  intro plan present
  refine ⟨fun key => ?_, fun key => ?_, fun key => ?_, fun chosen => ?_⟩
  · simp only [← Change.source?_eq_some]
    exact mem_mentioned
  · have tells : Tells (changes.foldl note ∅) present := by
      apply Tells.foldl
      intro key gone known
      simp at known
    rw [mem_removed, mem_changed]
    constructor
    · intro removed
      exact ⟨⟨true, removed⟩, (tells key true removed).mp rfl⟩
    · intro ⟨⟨gone, known⟩, absent⟩
      rw [known, (tells key gone known).mpr absent]
  · rw [← isTemplate_iff]
    exact List.mem_filter
  · have full : plan.strategy ≠ .full := by
      rcases chosen with same | same <;> simp [same]
    have refreshed : plan.strategy ≠ .templates := by
      rcases chosen with same | same <;> simp [same]
    refine List.filter_eq_nil_iff.mpr fun key member => ?_
    rw [not_isTemplate full refreshed member]
    exact Bool.false_ne_true

end Batch.Plan
end FreshDocs
