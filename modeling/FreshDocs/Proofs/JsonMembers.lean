import FreshDocs.Json.Value
import Mathlib.Data.String.Basic

/-! Members of objects in their canonical form. They come in ascending order, and what stands under a name is the
canonical form of what was given under it last. Members that are in this form already stay as they are. -/

namespace FreshDocs.Json

/-- The names of members ascend, so that none of them comes twice. -/
def Ascending (members : List (String × Json)) : Prop :=
  members.Pairwise fun first second => first.1 < second.1

/-- The last member of a name counts. -/
theorem member?_cons (first name : String) (value : Json) (rest : List (String × Json)) :
    (object ((first, value) :: rest)).member? name =
      ((object rest).member? name).or (if first = name then some value else none) := by
  simp only [member?, List.reverse_cons, List.find?_append, List.find?_singleton]
  cases rest.reverse.find? (·.1 = name) with
  | some found => rfl
  | none => by_cases same : first = name <;> simp [same]

private theorem member?_of_absent {members : List (String × Json)} {name : String} (absent : ∀ member ∈ members, member.1 ≠ name) :
    (object members).member? name = none := by
  simpa [member?] using fun other value member => absent (other, value) member

private theorem mem_insertMember {name : String} {value : Json} {members : List (String × Json)} {member : String × Json}
    (listed : member ∈ insertMember name value members) : member = (name, value) ∨ member ∈ members := by
  induction members with
  | nil => exact .inl (by simpa [insertMember] using listed)
  | cons first rest ih =>
    obtain ⟨other, old⟩ := first
    simp only [insertMember] at listed
    split at listed
    · exact List.mem_cons.mp listed
    split at listed
    · exact (List.mem_cons.mp listed).imp_right (List.mem_cons_of_mem _)
    · rcases List.mem_cons.mp listed with rfl | later
      · exact .inr List.mem_cons_self
      · exact (ih later).imp_right (List.mem_cons_of_mem _)

theorem Ascending.insertMember {members : List (String × Json)} (ascending : Ascending members) (name : String) (value : Json) :
    Ascending (insertMember name value members) := by
  induction members with
  | nil => exact List.pairwise_singleton _ _
  | cons first rest ih =>
    obtain ⟨other, old⟩ := first
    obtain ⟨below, later⟩ := List.pairwise_cons.mp ascending
    simp only [Json.insertMember]
    split
    next before =>
      refine List.pairwise_cons.mpr ⟨fun member listed => ?_, ascending⟩
      rcases List.mem_cons.mp listed with rfl | listed
      · exact before
      · exact before.trans (below member listed)
    split
    next same => exact List.pairwise_cons.mpr ⟨fun member listed => same ▸ below member listed, later⟩
    next between different =>
      have after : other < name := lt_of_le_of_ne (not_lt.mp between) (Ne.symm different)
      refine List.pairwise_cons.mpr ⟨fun member listed => ?_, ih later⟩
      rcases mem_insertMember listed with rfl | listed
      · exact after
      · exact below member listed

private theorem member?_insertMember {members : List (String × Json)} (ascending : Ascending members) (name other : String)
    (value : Json) : (object (insertMember name value members)).member? other =
      if name = other then some value else (object members).member? other := by
  induction members with
  | nil => simp [insertMember, member?]
  | cons first rest ih =>
    obtain ⟨held, old⟩ := first
    obtain ⟨below, later⟩ := List.pairwise_cons.mp ascending
    simp only [insertMember]
    split
    next before =>
      by_cases same : name = other
      · have absent : ∀ member ∈ (held, old) :: rest, member.1 ≠ other := by
          intro member listed
          rw [← same]
          rcases List.mem_cons.mp listed with rfl | listed
          · exact before.ne'
          · exact (before.trans (below member listed)).ne'
        simp only [member?_cons, member?_of_absent absent, if_pos same, Option.none_or]
      · simp only [member?_cons name, if_neg same, Option.or_none]
    split
    next same =>
      subst same
      by_cases asked : name = other
      · have absent : ∀ member ∈ rest, member.1 ≠ other := fun member listed => asked ▸ (below member listed).ne'
        simp only [member?_cons, member?_of_absent absent, if_pos asked, Option.none_or]
      · simp only [member?_cons, if_neg asked]
    next different =>
      rw [member?_cons, ih later, member?_cons]
      by_cases asked : name = other
      · have apart : held ≠ other := fun same => different (asked.trans same.symm)
        simp only [if_pos asked, if_neg apart, Option.or_none]
      · simp only [if_neg asked]

private theorem member?_canonicalMembers {sorted : List (String × Json)} (ascending : Ascending sorted)
    (members : List (String × Json)) (name : String) : (object (canonicalMembers members sorted)).member? name =
      (((object members).member? name).map canonical).or ((object sorted).member? name) := by
  induction members generalizing sorted with
  | nil => simp [canonicalMembers, member?]
  | cons first rest ih =>
    obtain ⟨other, value⟩ := first
    rw [canonicalMembers, ih (ascending.insertMember other value.canonical), member?_insertMember ascending, member?_cons]
    cases (object rest).member? name with
    | some found => rfl
    | none => by_cases same : other = name <;> simp [same]

/-- A record has under each name the canonical form of what it was made with. -/
theorem member?_record (members : List (String × Json)) (name : String) :
    (record members).member? name = ((object members).member? name).map canonical := by
  rw [record, canonical, member?_canonicalMembers List.Pairwise.nil]
  exact Option.or_none

private theorem insertMember_above {members : List (String × Json)} {name : String} (above : ∀ member ∈ members, member.1 < name)
    (value : Json) : insertMember name value members = members ++ [(name, value)] := by
  induction members with
  | nil => rfl
  | cons first rest ih =>
    obtain ⟨before, later⟩ := List.forall_mem_cons.mp above
    rw [insertMember, if_neg before.asymm, if_neg before.ne', ih later, List.cons_append]

private theorem canonicalMembers_ascending {members sorted : List (String × Json)} (ascending : Ascending (sorted ++ members))
    (plain : ∀ member ∈ members, member.2.canonical = member.2) : canonicalMembers members sorted = sorted ++ members := by
  induction members generalizing sorted with
  | nil => rw [canonicalMembers, List.append_nil]
  | cons first rest ih =>
    obtain ⟨name, value⟩ := first
    obtain ⟨same, later⟩ := List.forall_mem_cons.mp plain
    have above : ∀ member ∈ sorted, member.1 < name := fun member listed =>
      (List.pairwise_append.mp ascending).2.2 member listed (name, value) List.mem_cons_self
    have moved : sorted ++ (name, value) :: rest = (sorted ++ [(name, value)]) ++ rest := by simp
    rw [canonicalMembers, same, insertMember_above above, ih (moved ▸ ascending) later, moved]

/-- An object in order, with members in canonical form, is in canonical form. -/
theorem canonical_of_ascending {members : List (String × Json)} (ascending : Ascending members)
    (plain : ∀ member ∈ members, member.2.canonical = member.2) : (object members).canonical = object members := by
  rw [canonical, canonicalMembers_ascending (List.nil_append members ▸ ascending) plain, List.nil_append]

end FreshDocs.Json
