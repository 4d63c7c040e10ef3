import FreshDocs.Proofs.SortedMaps
import FreshDocs.Sections.Basic

/-! The registered sections as a list in the order of their ids, and what a stamp does to them. -/

namespace FreshDocs

def Section.stamped (now : Timestamp) (part : Section) : Section :=
  { part with lastUpdated := some now }

namespace Sections

variable {sections : Sections}

private theorem find?_register (part : Section) (id : String) :
    (sections.register part).find? id = if part.id = id then some part else sections.find? id := by
  simp only [register, find?, Std.ExtTreeMap.getElem?_insert, Std.compare_eq_iff_eq]

theorem find?_markUpdated (id : String) (now : Timestamp) (other : String) :
    (sections.markUpdated id now).find? other =
      if id = other then (sections.find? other).map (·.stamped now) else sections.find? other := by
  unfold markUpdated
  split
  next part found =>
    obtain rfl : part.id = id := sections.filed id part found
    rw [find?_register]
    split
    next same => rw [← same, found, Option.map_some, Section.stamped]
    next => rfl
  next missing =>
    split
    next same => rw [← same, missing, Option.map_none]
    next => rfl

/-! ### The list of all sections -/

private theorem mem_all {part : Section} : part ∈ sections.all ↔ sections.find? part.id = some part := by
  rw [all, SortedMap.mem_values]
  constructor
  · rintro ⟨id, found⟩
    rwa [find?, sections.filed id part found]
  · exact fun found => ⟨part.id, found⟩

private theorem ids_all (sections : Sections) : sections.all.map (·.id) = sections.byId.keys := by
  rw [all, SortedMap.values_eq_map, List.map_map, ← Std.ExtTreeMap.map_fst_toList_eq_keys]
  refine List.map_congr_left fun entry member => ?_
  exact sections.filed entry.1 entry.2 (Std.ExtTreeMap.mem_toList_iff_getElem?_eq_some.mp member)

/-- Sections are listed by ascending id. -/
theorem ascending_all (sections : Sections) : (sections.all.map (·.id)).Pairwise (compare · · = .lt) := by
  rw [ids_all]
  exact Std.ExtTreeMap.ordered_keys

theorem nodup_all (sections : Sections) : (sections.all.map (·.id)).Nodup := by
  refine sections.ascending_all.imp fun {first second} before same => ?_
  rw [same, Std.ReflOrd.compare_self] at before
  cases before

theorem mem_ids_all {id : String} : id ∈ sections.all.map (·.id) ↔ (sections.find? id).isSome := by
  rw [List.mem_map, Option.isSome_iff_exists]
  constructor
  · rintro ⟨part, member, rfl⟩
    exact ⟨part, mem_all.mp member⟩
  · rintro ⟨part, found⟩
    have own := sections.filed id part found
    exact ⟨part, mem_all.mpr (own.symm ▸ found), own⟩

end Sections
end FreshDocs
