import FreshDocs.Change.Event
import FreshDocs.Proofs.WireMessages

/-! Reports of changes as text. The members of an object tell of a change, wherever among them the kind of the change
stands and whatever else there is, and a report is read as the change that it was written from. -/

namespace FreshDocs

private theorem Json.string?_eq_some {value : Json} {text : String} : value.string? = some text ↔ value = .string text := by
  cases value <;> simp [string?]

namespace Change

/-! ### Kinds -/

namespace Kind

def name : Kind → String
  | .modified => "modified"
  | .added => "added"
  | .deleted => "deleted"
  | .renamed _ => "renamed"

def number : Kind → Int
  | .modified => 0
  | .added => 1
  | .deleted => 2
  | .renamed _ => 3

/-- A kind goes by its name or by its number. -/
def Called (kind : Kind) (tag : Json) : Prop :=
  tag = .string kind.name ∨ tag = .integer kind.number

variable {members : List (String × Json)} {tag : Json} {kind : Kind}

private theorem read?_renamed (called : tag = .string "renamed" ∨ tag = .integer 3) :
    read? members tag = ((single? "from" members).bind Json.string?).map fun text => .renamed ⟨text⟩ := by
  rcases called with rfl | rfl <;> simp [read?, Option.map_eq_bind, Option.bind_assoc]

/-- A renaming tells where the file was, and no other kind asks for that. -/
theorem read?_eq_some_iff : read? members tag = some kind ↔
    kind.Called tag ∧ ∀ source, kind = .renamed source → single? "from" members = some (.string source.text) := by
  constructor
  · intro read
    fun_cases read? members tag with
    | case1 | case2 | case3 | case4 | case5 | case6 =>
      obtain rfl := Option.some.inj read
      simp [Called, name, number]
    | case7 | case8 =>
      rw [read?_renamed (by simp)] at read
      obtain ⟨text, given, rfl⟩ := Option.map_eq_some_iff.mp read
      obtain ⟨value, found, spelled⟩ := Option.bind_eq_some_iff.mp given
      rw [Json.string?_eq_some.mp spelled] at found
      simp [Called, name, number, found]
    | case9 => simp [read?] at read
  · rintro ⟨called, source⟩
    cases kind with
    | renamed path =>
      rw [read?_renamed called, source path rfl]
      rfl
    | _ => rcases called with rfl | rfl <;> rfl

end Kind

/-! ### Members -/

/-- What is told of a change: each member that it needs stands there once. -/
structure Tells (members : List (String × Json)) (change : Change) : Prop where
  path : single? "path" members = some (.string change.path.text)
  kind : ∃ tag, single? "type" members = some tag ∧ change.kind.Called tag
  source : ∀ source, change.kind = .renamed source → single? "from" members = some (.string source.text)
  timestamp : ∃ time, single? "timestamp" members = some time ∧ Timestamp.ofJson? time = some change.timestamp

theorem read?_eq_some_iff {members : List (String × Json)} {change : Change} :
    read? (.object members) = some change ↔ Tells members change := by
  simp only [read?, Option.bind_eq_bind, Option.bind_eq_some_iff, Kind.read?_eq_some_iff, Json.string?_eq_some]
  constructor
  · rintro ⟨_, path, _, rfl, tag, type, kind, ⟨called, source⟩, time, stamp, timestamp, read, made⟩
    cases made
    exact ⟨path, ⟨tag, type, called⟩, source, time, stamp, read⟩
  · rintro ⟨path, ⟨tag, type, called⟩, source, time, stamp, read⟩
    exact ⟨_, path, _, rfl, tag, type, _, ⟨called, source⟩, time, stamp, _, read, rfl⟩

def names : List String := ["path", "type", "from", "timestamp"]

section
variable {members others : List (String × Json)}

private theorem single?_eq_some {name : String} {value : Json} :
    single? name members = some value ↔ members.filter (·.1 = name) = [(name, value)] := by
  unfold single?
  split
  next other found only =>
    have listed : (other, found) ∈ members.filter (·.1 = name) := only ▸ List.mem_singleton_self _
    have named : other = name := by simpa using (List.mem_filter.mp listed).2
    simp [only, named]
  next several => simpa using several name value

private theorem single?_of_perm {name : String} (same : (members.filter (·.1 = name)).Perm (others.filter (·.1 = name))) :
    single? name members = single? name others := by
  refine Option.ext fun value => ?_
  rw [single?_eq_some, single?_eq_some, ← List.perm_singleton, ← List.perm_singleton]
  exact ⟨same.symm.trans, same.trans⟩

/-- What is told depends on the members of the known names alone, in whatever order. -/
theorem Tells.of_perm {change : Change} (tells : Tells members change)
    (same : (members.filter (names.contains ·.1)).Perm (others.filter (names.contains ·.1))) : Tells others change := by
  have each {name : String} (known : name ∈ names) : single? name others = single? name members := by
    have only (list : List (String × Json)) :
        (list.filter (names.contains ·.1)).filter (·.1 = name) = list.filter (·.1 = name) := by
      rw [List.filter_filter]
      refine List.filter_congr fun member _ => ?_
      by_cases here : member.1 = name <;> simp [here, known]
    refine single?_of_perm ?_
    rw [← only members, ← only others]
    exact same.symm.filter _
  obtain ⟨path, kind, source, timestamp⟩ := tells
  rw [← each (by simp [names])] at path kind timestamp
  refine ⟨path, kind, fun before renamed => ?_, timestamp⟩
  rw [each (by simp [names]), source before renamed]

private theorem read?_of_perm (same : (members.filter (names.contains ·.1)).Perm (others.filter (names.contains ·.1))) :
    read? (.object members) = read? (.object others) := by
  refine Option.ext fun change => ?_
  rw [read?_eq_some_iff, read?_eq_some_iff]
  exact ⟨fun tells => tells.of_perm same, fun tells => tells.of_perm same.symm⟩

end

/-! ### Texts -/

def members (change : Change) : List (String × Json) :=
  ("path", toJson change.path) :: change.kind.members ++ [("timestamp", toJson change.timestamp)]

theorem toJson_eq (change : Change) : toJson change = .object change.members :=
  rfl

private theorem tells_members {change : Change} (readable : change.timestamp.Readable) : Tells change.members change := by
  have timestamp := Timestamp.ofJson?_toJson readable
  obtain ⟨path, kind, _⟩ := change
  cases kind with
  | renamed source =>
    refine ⟨rfl, ⟨_, rfl, .inl rfl⟩, ?_, ⟨_, rfl, timestamp⟩⟩
    rintro _ ⟨⟩
    rfl
  | _ => exact ⟨rfl, ⟨_, rfl, .inl rfl⟩, fun _ renamed => (nomatch renamed), ⟨_, rfl, timestamp⟩⟩

theorem whole_toJson (change : Change) : (toJson change).Whole := by
  obtain ⟨path, kind, _⟩ := change
  refine .object fun member listed => ?_
  cases kind <;> simp only [Kind.members, List.cons_append, List.nil_append, List.mem_cons, List.not_mem_nil, or_false] at listed
  case renamed => rcases listed with rfl | rfl | rfl | rfl <;> exact .string _
  all_goals rcases listed with rfl | rfl | rfl <;> exact .string _

theorem depth_toJson (change : Change) : (toJson change).depth = 1 := by
  obtain ⟨path, kind, _⟩ := change
  cases kind <;> rfl

theorem parse?_compact {change : Change} (readable : change.timestamp.Readable) :
    parse? (toJson change).compact = some change := by
  have shallow : (toJson change).depth < Json.depthLimit := by
    rw [depth_toJson]
    decide
  rw [parse?, Json.parse?_compact (whole_toJson change), if_pos shallow, Option.bind_some, toJson_eq, read?_eq_some_iff]
  exact tells_members readable

private theorem parse?_eq_some_iff {text : String} {change : Change} : parse? text = some change ↔
    ∃ members, Json.parse? text = some (.object members) ∧ Tells members change := by
  rw [parse?, Option.bind_eq_some_iff]
  constructor
  · rintro ⟨value, given, read⟩
    cases value with
    | object members => exact ⟨members, given, read?_eq_some_iff.mp read⟩
    | _ => cases read
  · rintro ⟨members, given, tells⟩
    exact ⟨_, given, read?_eq_some_iff.mpr tells⟩

private theorem parse?_of_perm {text other : String} {members others : List (String × Json)}
    (one : Json.parse? text = some (.object members)) (two : Json.parse? other = some (.object others))
    (same : (members.filter (names.contains ·.1)).Perm (others.filter (names.contains ·.1))) :
    parse? text = parse? other := by
  rw [parse?, parse?, one, two, Option.bind_some, Option.bind_some, read?_of_perm same]

/-- What was read at all is readable when it is written, if its year is. -/
theorem readable_of_parse? {text : String} {change : Change} (read : parse? text = some change)
    (least : 0 ≤ (Calendar.ofDays (change.timestamp.second / 86400)).year)
    (most : (Calendar.ofDays (change.timestamp.second / 86400)).year ≤ 9999) : change.timestamp.Readable := by
  obtain ⟨members, -, tells⟩ := parse?_eq_some_iff.mp read
  obtain ⟨time, -, stamped⟩ := tells.timestamp
  obtain ⟨spelled, -, parsed⟩ := Option.bind_eq_some_iff.mp stamped
  exact ⟨by omega, by omega, Timestamp.leap_of_parse? parsed⟩

/-- A report is read as the change that it was written from, and so is one of any change that was read before, in a
year of four digits. In general a report is read as the change that its members tell of, a renaming only with the text
of where the file was; the order of the members makes no difference, nor do members of other names. -/
theorem parse?_reads_members {change : Change} (readable : change.timestamp.Readable) :
    parse? (toJson change).compact = some change ∧
    (∀ text read, parse? text = some read → 0 ≤ (Calendar.ofDays (read.timestamp.second / 86400)).year →
      (Calendar.ofDays (read.timestamp.second / 86400)).year ≤ 9999 → parse? (toJson read).compact = some read) ∧
    (∀ text read, parse? text = some read ↔
      ∃ members, Json.parse? text = some (.object members) ∧ Tells members read) ∧
    ∀ text other members others, Json.parse? text = some (.object members) → Json.parse? other = some (.object others) →
      (members.filter (names.contains ·.1)).Perm (others.filter (names.contains ·.1)) → parse? text = parse? other := by
  refine ⟨parse?_compact readable, ?_, fun text read => parse?_eq_some_iff, ?_⟩
  · intro text read parsed least most
    exact parse?_compact (readable_of_parse? parsed least most)
  · intro text other members others one two same
    exact parse?_of_perm one two same

def movedLate : Change :=
  { path := ⟨"docs/\"ü\".md"⟩, kind := .renamed ⟨"docs\\\n→.md"⟩, timestamp := ⟨1483228799, 1500000000, by decide⟩ }

/-- A report of it, the other way round and with more members than it needs. -/
def movedReport : Json :=
  .object [("timestamp", toJson movedLate.timestamp), ("note", .array [.null]), ("from", .string "docs\\\n→.md"),
    ("type", .string "renamed"), ("note", .bool true), ("path", toJson movedLate.path)]

theorem movedReport_reads_members : movedLate.timestamp.Readable ∧ parse? (toJson movedLate).compact = some movedLate ∧
    parse? movedReport.compact = some movedLate := by
  have readable : movedLate.timestamp.Readable := ⟨by decide, by decide, by decide⟩
  obtain ⟨back, -, -, perm⟩ := parse?_reads_members readable
  have plain : Json.parse? (toJson movedLate).compact = some (toJson movedLate) :=
    (Json.parse?_compact (whole_toJson movedLate)).trans (if_pos (by decide))
  have whole : movedReport.Whole := by
    refine .object fun member listed => ?_
    simp only [List.mem_cons, List.not_mem_nil, or_false] at listed
    rcases listed with rfl | rfl | rfl | rfl | rfl | rfl
    case inr.inl => exact .array fun item listed => List.mem_singleton.mp listed ▸ .null
    case inr.inr.inr.inr.inl => exact .bool true
    all_goals exact .string _
  have turned : Json.parse? movedReport.compact = some movedReport :=
    (Json.parse?_compact whole).trans (if_pos (by decide))
  exact ⟨readable, back, (perm _ _ _ _ turned plain (List.reverse_perm movedLate.members)).trans back⟩

end Change
end FreshDocs
