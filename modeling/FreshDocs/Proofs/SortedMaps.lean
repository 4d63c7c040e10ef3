import Std.Data.ExtTreeMap

/-! Facts about sorted maps as lists of their entries. An entry that is taken out or put in
changes such a list by exactly that entry, so sums over all entries follow every change. An index
over the entries follows it as well, as long as it is changed along with them. -/

namespace FreshDocs.SortedMap
open Std

section
variable {κ : Type u} {β : Type v} [Ord κ] [TransOrd κ]

theorem values_eq_map (map : ExtTreeMap κ β) : map.values = map.toList.map Prod.snd := by
  have folded : map.values = map.foldr (fun _ value values => value :: values) [] := by
    obtain ⟨inner⟩ := map
    induction inner using ExtDTreeMap.inductionOn with
    | _ inner => rfl
  rw [folded, ExtTreeMap.foldr_eq_foldr_toList]
  induction map.toList with
  | nil => rfl
  | cons entry rest ih => rw [List.foldr_cons, ih, List.map_cons]

theorem toList_nodup (map : ExtTreeMap κ β) : map.toList.Nodup := by
  apply map.distinct_keys_toList.imp
  intro first second different same
  subst same
  exact different ReflOrd.compare_self

variable [LawfulEqOrd κ]

theorem mem_values {map : ExtTreeMap κ β} {value : β} :
    value ∈ map.values ↔ ∃ key : κ, map[key]? = some value := by
  rw [values_eq_map, List.mem_map]
  constructor
  · rintro ⟨⟨key, _⟩, member, rfl⟩
    exact ⟨key, ExtTreeMap.mem_toList_iff_getElem?_eq_some.mp member⟩
  · rintro ⟨key, found⟩
    exact ⟨(key, value), ExtTreeMap.mem_toList_iff_getElem?_eq_some.mpr found, rfl⟩

private theorem insert_erase_of_free {map : ExtTreeMap κ β} {key : κ} (value : β) (free : map[key]? = none) :
    (map.insert key value).erase key = map := by
  apply ExtTreeMap.ext_getElem?
  intro other
  rw [ExtTreeMap.getElem?_erase, ExtTreeMap.getElem?_insert]
  split
  next same => rw [← LawfulEqOrd.eq_of_compare same, free]
  next => rfl

theorem erase_comm (map : ExtTreeMap κ β) (first second : κ) :
    (map.erase first).erase second = (map.erase second).erase first := by
  apply ExtTreeMap.ext_getElem?
  intro other
  simp only [ExtTreeMap.getElem?_erase]
  split <;> split <;> rfl

theorem insert_of_erase (map : ExtTreeMap κ β) (key : κ) (value : β) :
    (map.erase key).insert key value = map.insert key value := by
  apply ExtTreeMap.ext_getElem?
  intro other
  simp only [ExtTreeMap.getElem?_insert, ExtTreeMap.getElem?_erase]
  split <;> rfl

/-- Taking out the entry of a key leaves all others. -/
theorem toList_perm_erase {map : ExtTreeMap κ β} {key : κ} {value : β} (found : map[key]? = some value) :
    map.toList.Perm ((key, value) :: (map.erase key).toList) := by
  classical
  have absent : (key, value) ∉ (map.erase key).toList := by simp
  apply (List.perm_ext_iff_of_nodup (toList_nodup map) (List.nodup_cons.mpr ⟨absent, toList_nodup _⟩)).mpr
  rintro ⟨other, held⟩
  rw [List.mem_cons, ExtTreeMap.mem_toList_iff_getElem?_eq_some,
    ExtTreeMap.mem_toList_iff_getElem?_eq_some, ExtTreeMap.getElem?_erase]
  by_cases same : key = other
  · subst other
    simp [found, eq_comm]
  · simp [same, Ne.symm same]

/-- Putting an entry under a free key leaves all others. -/
theorem toList_insert_perm {map : ExtTreeMap κ β} {key : κ} (value : β) (free : map[key]? = none) :
    (map.insert key value).toList.Perm ((key, value) :: map.toList) := by
  have placed : (map.insert key value)[key]? = some value := ExtTreeMap.getElem?_insert_self
  have split := toList_perm_erase placed
  rwa [insert_erase_of_free value free] at split

theorem toList_erase (map : ExtTreeMap κ β) (key : κ) :
    (map.erase key).toList = map.toList.filter fun entry => compare key entry.1 != .eq := by
  have filtered : map.erase key = map.filter fun other _ => compare key other != .eq := by
    apply ExtTreeMap.ext_getElem?
    intro other
    rw [ExtTreeMap.getElem?_erase, ExtTreeMap.getElem?_filter']
    by_cases same : compare key other = .eq
    · cases map[other]? <;> simp [same]
    · cases map[other]? <;> simp [same, Option.filter]
  rw [filtered, ExtTreeMap.toList_filter]

/-- An entry under a key above all others comes last. -/
theorem toList_insert_above {map : ExtTreeMap κ β} {key : κ} (value : β)
    (above : ∀ other held, map[other]? = some held → compare other key = .lt) :
    (map.insert key value).toList = map.toList ++ [(key, value)] := by
  have free : map[key]? = none := by
    cases found : map[key]? with
    | none => rfl
    | some held =>
      have below := above key held found
      rw [ReflOrd.compare_self] at below
      cases below
  have sorted : (map.toList ++ [(key, value)]).Pairwise fun first second => compare first.1 second.1 = .lt := by
    rw [List.pairwise_append]
    refine ⟨ExtTreeMap.ordered_keys_toList, List.pairwise_singleton _ _, ?_⟩
    intro entry member last here
    cases List.mem_singleton.mp here
    exact above entry.1 entry.2 (ExtTreeMap.mem_toList_iff_getElem?_eq_some.mp member)
  refine List.Perm.eq_of_pairwise ?_ ExtTreeMap.ordered_keys_toList sorted ?_
  · intro first second _ _ one two
    rw [OrientedOrd.eq_swap, two] at one
    cases one
  · exact (toList_insert_perm value free).trans (List.perm_append_singleton _ _).symm

end

/-! ### Indexes -/

section
variable {κ : Type u} {β : Type v} {ι : Type w} [Ord κ] [TransOrd κ] [Ord ι] [TransOrd ι]

/-- An index leads from a label to a key exactly where the value of the key has the label. -/
def Indexes (index : ExtTreeMap ι κ) (map : ExtTreeMap κ β) (label : β → ι) : Prop :=
  ∀ place key, index[place]? = some key ↔ ∃ value, map[key]? = some value ∧ label value = place

namespace Indexes
variable {index : ExtTreeMap ι κ} {map : ExtTreeMap κ β} {label : β → ι}

/-- The values of different keys have different labels. -/
theorem injective (indexes : Indexes index map label) {first second : κ} {a b : β} (one : map[first]? = some a)
    (two : map[second]? = some b) (same : label a = label b) : first = second := by
  have left := (indexes (label a) first).mpr ⟨a, one, rfl⟩
  have right := (indexes (label a) second).mpr ⟨b, two, same.symm⟩
  exact Option.some.inj (left.symm.trans right)

variable [LawfulEqOrd κ] [LawfulEqOrd ι]

theorem insert (indexes : Indexes index map label) {key : κ} {value : β} (unused : index[label value]? = none)
    (free : map[key]? = none) : Indexes (index.insert (label value) key) (map.insert key value) label := by
  intro place other
  simp only [ExtTreeMap.getElem?_insert]
  by_cases here : label value = place
  · subst here
    by_cases same : key = other
    · simp [same]
    · have unheld := indexes (label value) other
      simp only [unused, reduceCtorEq, false_iff] at unheld
      simpa [same] using unheld
  · by_cases same : key = other
    · subst same
      have unplaced := indexes place key
      simp only [free, reduceCtorEq, false_and, exists_false, iff_false] at unplaced
      simpa [here] using unplaced
    · simpa [here, same] using indexes place other

theorem erase (indexes : Indexes index map label) {key : κ} {value : β} (present : map[key]? = some value) :
    Indexes (index.erase (label value)) (map.erase key) label := by
  intro place other
  simp only [ExtTreeMap.getElem?_erase]
  by_cases here : label value = place
  · subst here
    simp only [ReflOrd.compare_self, if_true, reduceCtorEq, false_iff]
    rintro ⟨held, there, same⟩
    split at there
    next => cases there
    next different => exact different (Std.compare_eq_iff_eq.mpr (indexes.injective present there same.symm))
  · by_cases same : key = other
    · subst same
      have placed := indexes place key
      simp only [present, Option.some.injEq, exists_eq_left', here, iff_false] at placed
      simpa [here] using placed
    · simpa [here, same] using indexes place other

/-- A value gives way to another under the same key, and its label to the label of the other. -/
theorem replace (indexes : Indexes index map label) {key : κ} {value other : β} (present : map[key]? = some value)
    (unused : index[label other]? = none) :
    Indexes ((index.erase (label value)).insert (label other) key) (map.insert key other) label := by
  rw [← insert_of_erase map key other]
  apply (indexes.erase present).insert
  · rw [ExtTreeMap.getElem?_erase, unused]
    exact ite_self none
  · exact ExtTreeMap.getElem?_erase_self

end Indexes
end

end FreshDocs.SortedMap
