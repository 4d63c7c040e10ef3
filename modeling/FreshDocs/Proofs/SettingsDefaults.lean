import FreshDocs.Proofs.SettingsLeaves

/-! What a document does not mention has its default. This holds for all tables but those of the
templates and of the snapshots: a store that is given in part is read over the general limits,
which are not its own. -/

namespace FreshDocs.Settings
open Leaf

def wayTo (store : String) : List (List String × String) :=
  [(fieldNames, "cache"), (StoreSettings.fieldNames, store)]

/-- A store is given with both its size and its count, or not at all. -/
def GivenWhole (surplus : Bool) (json : Json) (store : String) : Prop :=
  ∀ limit ∈ ["max_size_bytes", "max_entries"], isOpen surplus (wayTo store) json = true ∨
    isOpen surplus (wayTo store ++ [(Store.Limits.fieldNames, limit)]) json = false

instance (surplus : Bool) (json : Json) (store : String) : Decidable (GivenWhole surplus json store) :=
  inferInstanceAs (Decidable (∀ limit ∈ _, _))

/-- Settings with what a document gives, and with the defaults for everything else. -/
def Overwritten (surplus : Bool) (json : Json) (settings : Settings) : Prop :=
  ∀ leaf ∈ leaves, leaf.overwritten? surplus {} json = some (leaf.value settings)

section
variable {surplus : Bool} {json : Json} {store : String} {part : StoreSettings → Store.Limits}

/-- A store with limits of its own, which are read over the general ones. -/
structure Apart (surplus : Bool) (store : String) (part : StoreSettings → Store.Limits) : Prop where
  start : ∀ json, part (StoreSettings.base surplus json) =
    (given? surplus [(StoreSettings.fieldNames, store)] json).join.elim (part {}) fun _ => {}
  size : (part {}).maxSize ≠ ({} : Store.Limits).maxSize
  entries : (part {}).maxEntries ≠ ({} : Store.Limits).maxEntries
  ttl : (part {}).ttl = ({} : Store.Limits).ttl

private theorem apart_templates (surplus : Bool) : Apart surplus "templates" (·.artifacts.templates) := by
  refine ⟨?_, by decide, by decide, rfl⟩
  intro json
  simp only [StoreSettings.base, given?]
  cases Json.Fields.read? StoreSettings.fieldNames surplus json with
  | none => rfl
  | some fields => cases given : fields.find? "templates" <;> simp [given]

private theorem apart_snapshots (surplus : Bool) : Apart surplus "snapshots" (·.snapshots) := by
  refine ⟨?_, by decide, by decide, rfl⟩
  intro json
  simp only [StoreSettings.base, given?]
  cases Json.Fields.read? StoreSettings.fieldNames surplus json with
  | none => rfl
  | some fields => cases given : fields.find? "snapshots" <;> simp [given]

private theorem Apart.start_settings (apart : Apart surplus store part) :
    part (base surplus json).stores = (given? surplus (wayTo store) json).join.elim (part {}) fun _ => {} := by
  unfold base wayTo
  rw [given?]
  cases Json.Fields.read? fieldNames surplus json with
  | none => rfl
  | some fields =>
    cases cache : fields.find? "cache" with
    | none => simp [cache]
    | some inner => simp [cache, apart.start]

/-- A limit that is left out differs from its default exactly if others of its store are given. -/
theorem Apart.givenWhole_iff (apart : Apart surplus store part) :
    GivenWhole surplus json store ↔ ∀ leaf ∈ Store.Limits.leaves,
      given? surplus (wayTo store ++ leaf.way) json = some none →
        leaf.value (part {}) = leaf.value (part (base surplus json).stores) := by
  rw [apart.start_settings]
  simp only [GivenWhole, isOpen_eq_true, isOpen_eq_false, given?_append]
  cases given? surplus (wayTo store) json with
  | none => simp
  | some given =>
    cases given with
    | none => simp
    | some limits => simp [Store.Limits.leaves, apart.size, apart.entries, apart.ttl]

private theorem overwritten_iff {settings : Settings}
    (sound : ∀ leaf ∈ leaves, leaf.overwritten? surplus (base surplus json) json = some (leaf.value settings)) :
    Overwritten surplus json settings ↔
      ∀ leaf ∈ leaves, given? surplus leaf.way json = some none → leaf.value {} = leaf.value (base surplus json) := by
  constructor
  · intro overwritten leaf member missing
    have one := overwritten leaf member
    have two := sound leaf member
    rw [overwritten?_of_not_given leaf _ missing] at one two
    exact Option.some.inj (one.trans two.symm)
  · intro alike leaf member
    rw [overwritten?_congr leaf (alike leaf member)]
    exact sound leaf member

private theorem base_analyses : (base surplus json).stores.artifacts.analyses = {} := by
  unfold base StoreSettings.base
  cases Json.Fields.read? fieldNames surplus json with
  | none => rfl
  | some fields =>
    cases cache : fields.find? "cache" with
    | none => simp [cache]
    | some inner =>
      simp only [cache, Option.elim_some]
      cases Json.Fields.read? StoreSettings.fieldNames surplus inner <;> rfl

/-- Only limits of stores differ between the two bases. -/
theorem base_others : base surplus json = { stores := (base surplus json).stores } := by
  unfold base
  cases Json.Fields.read? fieldNames surplus json <;> rfl

private theorem overwritten_iff_whole {settings : Settings}
    (sound : ∀ leaf ∈ leaves, leaf.overwritten? surplus (base surplus json) json = some (leaf.value settings)) :
    Overwritten surplus json settings ↔ GivenWhole surplus json "templates" ∧ GivenWhole surplus json "snapshots" := by
  rw [overwritten_iff sound, (apart_templates surplus).givenWhole_iff, (apart_snapshots surplus).givenWhole_iff]
  simp only [leaves, StoreSettings.leaves, List.forall_mem_append, List.forall_mem_map]
  constructor
  · rintro ⟨⟨-, templates, snapshots⟩, -⟩
    exact ⟨templates, snapshots⟩
  · rintro ⟨templates, snapshots⟩
    refine ⟨⟨?_, templates, snapshots⟩, ?_⟩
    · intro leaf _ _
      rw [base_analyses]
    · rw [base_others]
      exact ⟨fun _ _ _ => rfl, fun _ _ _ => rfl, fun _ _ _ => rfl, fun _ _ _ => rfl⟩

/-- A document whose values are all of the right kind is read, and exactly as its leaves say. It is
the defaults with what is given written over them, if and only if no store with limits of its own is
given in part. -/
theorem parse_overwritten_iff_whole {text : String} (document : Toml.parse? text = some json)
    (typed : ∀ leaf ∈ leaves, (leaf.overwritten? true {} json).isSome) :
    ∃ settings : Settings, parse text = settings.validate.map (fun () => settings) ∧
      (∀ other : Settings,
        (∀ leaf ∈ leaves, leaf.overwritten? true (base true json) json = some (leaf.value other)) ↔ other = settings) ∧
      ((∀ other, Overwritten true json other ↔ other = settings) ↔
        GivenWhole true json "templates" ∧ GivenWhole true json "snapshots") := by
  have given : ∀ leaf ∈ leaves, ∃ value, leaf.overwritten? true (base true json) json = some value := by
    intro leaf member
    rw [← Option.isSome_iff_exists, isSome_overwritten? leaf true _ {} json]
    exact typed leaf member
  obtain ⟨settings, read, exact⟩ := (reads true).exact given
  have sound := (exact settings).mpr rfl
  refine ⟨settings, ?_, exact, ?_⟩
  · rw [parse, document, Option.bind_some, read]
  rw [← overwritten_iff_whole sound]
  constructor
  · intro only
    exact (only settings).mpr rfl
  · intro overwritten other
    constructor
    · intro likewise
      apply (reads true).determined
      intro leaf member
      exact Option.some.inj ((likewise leaf member).symm.trans (overwritten leaf member))
    · rintro rfl
      exact overwritten

theorem given_whole_overwritten :
    ∃ json settings, Toml.parse? "[cache.templates]\nmax_entries = 7\nmax_size_bytes = 4096\n" = some json ∧
      parse "[cache.templates]\nmax_entries = 7\nmax_size_bytes = 4096\n" = settings.validate.map (fun () => settings) ∧
      Overwritten true json settings := by
  have kinds : ((Toml.parse? "[cache.templates]\nmax_entries = 7\nmax_size_bytes = 4096\n").any fun json =>
      leaves.all fun leaf => (leaf.overwritten? true {} json).isSome) = true := by decide +kernel
  have stores : ((Toml.parse? "[cache.templates]\nmax_entries = 7\nmax_size_bytes = 4096\n").all fun json =>
      GivenWhole true json "templates" ∧ GivenWhole true json "snapshots") = true := by decide +kernel
  obtain ⟨json, document, kinds⟩ := (Option.any_eq_true _ _).mp kinds
  obtain ⟨settings, parsed, -, whole⟩ := parse_overwritten_iff_whole document (List.all_eq_true.mp kinds)
  rw [document] at stores
  exact ⟨json, settings, document, parsed, (whole.mpr (of_decide_eq_true stores) settings).mpr rfl⟩

/-- The defaults of the templates are lost with the first of their limits that is given. -/
theorem partly_given_not_overwritten :
    ∃ json settings, Toml.parse? "[cache.templates]\nttl_ms = 60000\n" = some json ∧
      read? true json = some settings ∧ settings.stores.artifacts.templates.maxEntries = 5000 ∧
      ({} : Settings).stores.artifacts.templates.maxEntries = 500 ∧ ¬Overwritten true json settings := by
  have answer : ((Toml.parse? "[cache.templates]\nttl_ms = 60000\n").bind fun json =>
      (read? true json).map fun settings => settings.stores.artifacts.templates.maxEntries) = some 5000 := by
    decide +kernel
  have given : ((Toml.parse? "[cache.templates]\nttl_ms = 60000\n").all fun json =>
      ¬GivenWhole true json "templates") = true := by decide +kernel
  obtain ⟨json, document, read⟩ := Option.bind_eq_some_iff.mp answer
  obtain ⟨settings, read, lost⟩ := Option.map_eq_some_iff.mp read
  rw [document] at given
  refine ⟨json, settings, document, read, lost, rfl, ?_⟩
  rw [overwritten_iff_whole ((reads true).sound read)]
  exact fun whole => of_decide_eq_true given whole.1

end
end FreshDocs.Settings
