import FreshDocs.Proofs.JsonMembers
import FreshDocs.Proofs.SortedMaps
import FreshDocs.Source.Tally
import Mathlib.Algebra.Ring.Nat
import Mathlib.Data.List.Perm.Basic

/-! Adding up numbers by name. It makes no difference in which order they are added, what is counted in two parts
adds up name by name, and no number is lost. A tally is read back from its written form as it was. -/

namespace FreshDocs.Source.Tally
open Std

@[simp] theorem getD_add (name other : String) (count : Nat) (tally : Tally) :
    (add name count tally).getD other 0 = tally.getD other 0 + if name = other then count else 0 := by
  by_cases same : name = other
  · simp [add, same]
  · simp [add, ExtTreeMap.getD_insert, same]

@[simp] theorem mem_add (name other : String) (count : Nat) (tally : Tally) :
    other ∈ add name count tally ↔ name = other ∨ other ∈ tally := by
  rw [add, ExtTreeMap.mem_insert, LawfulEqOrd.compare_eq_iff_eq]

/-- A tally is told by its names and their numbers. -/
theorem ext_counts {first second : Tally} (names : ∀ name, name ∈ first ↔ name ∈ second)
    (counts : ∀ name, first.getD name 0 = second.getD name 0) : first = second := by
  apply ExtTreeMap.ext_getElem?
  intro name
  have named := names name
  have counted := counts name
  rw [ExtTreeMap.getD_eq_getD_getElem?, ExtTreeMap.getD_eq_getD_getElem?] at counted
  rw [ExtTreeMap.mem_iff_isSome_getElem?, ExtTreeMap.mem_iff_isSome_getElem?] at named
  cases one : first[name]? <;> cases two : second[name]? <;> simp_all

/-! ### Order and parts -/

instance : RightCommutative fun (tally : Tally) (entry : String × Nat) => add entry.1 entry.2 tally where
  right_comm tally first second := by
    apply ext_counts
    · intro name
      simp only [mem_add]
      exact or_left_comm
    · intro name
      simp only [getD_add]
      exact Nat.add_right_comm _ _ _

private theorem addAll_append (first second : List (String × Nat)) (tally : Tally) :
    addAll (first ++ second) tally = addAll second (addAll first tally) :=
  List.foldl_append

theorem addAll_comm (first second : List (String × Nat)) (tally : Tally) :
    addAll first (addAll second tally) = addAll second (addAll first tally) := by
  rw [← addAll_append, ← addAll_append]
  exact List.perm_append_comm.foldl_eq tally

theorem add_comm (name other : String) (count more : Nat) (tally : Tally) :
    add name count (add other more tally) = add other more (add name count tally) :=
  addAll_comm [(name, count)] [(other, more)] tally

/-- The third tally has the names of both others, and for each the sum of their numbers. -/
structure Sums (first second total : Tally) : Prop where
  names : ∀ name, name ∈ total ↔ name ∈ first ∨ name ∈ second
  counts : ∀ name, total.getD name 0 = first.getD name 0 + second.getD name 0

theorem Sums.empty (tally : Tally) : Sums tally ∅ tally :=
  ⟨by simp, by simp⟩

theorem Sums.add {first second total : Tally} (sums : Sums first second total) (name : String) (count : Nat) :
    Sums first (add name count second) (add name count total) := by
  refine ⟨fun other => ?_, fun other => ?_⟩
  · rw [mem_add, mem_add, sums.names, or_left_comm]
  · rw [getD_add, getD_add, sums.counts, Nat.add_assoc]

theorem Sums.addAll {first second total : Tally} (sums : Sums first second total) (counts : List (String × Nat)) :
    Sums first (addAll counts second) (addAll counts total) := by
  induction counts generalizing second total with
  | nil => exact sums
  | cons entry rest ih => exact ih (sums.add entry.1 entry.2)

theorem ofNames_append (first second : List String) :
    Sums (ofNames first) (ofNames second) (ofNames (first ++ second)) := by
  rw [ofNames, ofNames, ofNames, List.map_append, addAll_append]
  exact (Sums.empty _).addAll _

/-! ### The whole -/

def total (tally : Tally) : Nat :=
  (tally.toList.map (·.2)).sum

theorem total_empty : total ∅ = 0 := by
  rw [total, ExtTreeMap.toList_eq_nil_iff.mpr rfl]
  rfl

/-- What is added for one name is added to the whole. -/
theorem total_add (name : String) (count : Nat) (tally : Tally) : total (add name count tally) = total tally + count := by
  have rest := SortedMap.insert_of_erase tally name (tally.getD name 0 + count)
  have free : (tally.erase name)[name]? = none := ExtTreeMap.getElem?_erase_self
  have placed := (SortedMap.toList_insert_perm (tally.getD name 0 + count) free).map (·.2)
  rw [total, add, ← rest, placed.sum_nat, List.map_cons, List.sum_cons]
  cases held : tally[name]? with
  | none =>
    have same : tally.erase name = tally := by
      apply ExtTreeMap.ext_getElem?
      intro other
      rw [ExtTreeMap.getElem?_erase]
      split
      next asked => rw [← LawfulEqOrd.eq_of_compare asked, held]
      next => rfl
    rw [same, ExtTreeMap.getD_eq_getD_getElem?, held, Option.getD_none, total]
    omega
  | some number =>
    have parted := (SortedMap.toList_perm_erase held).map (·.2)
    rw [total, parted.sum_nat, List.map_cons, List.sum_cons, ExtTreeMap.getD_eq_getD_getElem?, held, Option.getD_some]
    omega

/-! ### The written form -/

theorem natural?_toJson (count : Nat) : (toJson count).natural? = some count := by
  simp [toJson, Json.natural?]

/-- A tally is written in canonical form. -/
theorem canonical_toJson (tally : Tally) : (toJson tally).canonical = toJson tally := by
  refine Json.canonical_of_ascending ?_ ?_
  · refine List.pairwise_map.mpr (ExtTreeMap.ordered_keys_toList.imp ?_)
    exact fun before => compareOfLessAndEq_eq_lt.mp before
  · intro member listed
    obtain ⟨entry, -, rfl⟩ := List.mem_map.mp listed
    rfl

/-- The entries of a tally make it up. -/
theorem ofList_toList (tally : Tally) : (ExtTreeMap.ofList tally.toList : Tally) = tally := by
  apply ExtTreeMap.ext_getElem?
  intro name
  have distinct := tally.distinct_keys_toList
  cases held : tally[name]? with
  | some count =>
    exact ExtTreeMap.getElem?_ofList_of_mem compare_self distinct (ExtTreeMap.mem_toList_iff_getElem?_eq_some.mpr held)
  | none =>
    apply ExtTreeMap.getElem?_ofList_of_contains_eq_false
    rw [ExtTreeMap.map_fst_toList_eq_keys]
    simpa using held

end FreshDocs.Source.Tally
