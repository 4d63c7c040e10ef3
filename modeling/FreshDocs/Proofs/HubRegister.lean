import FreshDocs.Sync.Hub
import Mathlib.Data.List.Range

/-! A register of a queue. It numbers the revisions as they enter and writes down how each one
leaves: no revision leaves twice, and none is lost. -/

namespace FreshDocs.Sync.Hub

/-- A revision with its number among all that entered the queue. -/
structure Item where
  number : Nat
  revision : Revision

/-- How a revision left the queue. Flushes are numbered, and conflicts have their ids. -/
inductive Fate where
  | broadcast (flush : Nat)
  | compacted (flush : Nat)
  | dropped
  | purged (conflict : Uuid)
  deriving DecidableEq

structure Register where
  flushes : Nat := 0
  waiting : List Item := []
  fated : List (Item × Fate) := []

def judge (flush : Nat) : List Item → List (Item × Fate)
  | [] => []
  | item :: rest =>
    (item, if rest.any (·.revision.path = item.revision.path) then .compacted flush else .broadcast flush) :: judge flush rest

namespace Register

def size (register : Register) : Nat :=
  register.waiting.length + register.fated.length

def enter (register : Register) (limit : Nat) (revision : Revision) : Register :=
  let waiting := register.waiting ++ [⟨register.size, revision⟩]
  let surplus := if limit < waiting.length then 1 else 0
  { register with
    waiting := waiting.drop surplus
    fated := register.fated ++ (waiting.take surplus).map (·, .dropped) }

def purge (register : Register) (path : String) (conflict : Uuid) : Register :=
  { register with
    waiting := register.waiting.filter (·.revision.path ≠ path)
    fated := register.fated ++ (register.waiting.filter (·.revision.path = path)).map (·, .purged conflict) }

def flush (register : Register) : Register :=
  { flushes := register.flushes + 1
    waiting := []
    fated := register.fated ++ judge register.flushes register.waiting }

end Register

def fatedBy (fate : Fate → Bool) (fated : List (Item × Fate)) : List Item :=
  (fated.filter fun entry => fate entry.2).map (·.1)

def Fate.isBroadcast : Fate → Bool
  | .broadcast _ => true
  | .compacted _ | .dropped | .purged _ => false

def Fate.isCompacted : Fate → Bool
  | .compacted _ => true
  | .broadcast _ | .dropped | .purged _ => false

def Fate.isDropped : Fate → Bool
  | .dropped => true
  | .broadcast _ | .compacted _ | .purged _ => false

def Fate.isPurged : Fate → Bool
  | .purged _ => true
  | .broadcast _ | .compacted _ | .dropped => false

/-- A register of revisions that entered: each of them is in one place, those that were broadcast
left in order, and none was compacted without a later one of its document. -/
structure Register.Sound (entered : List Revision) (register : Register) : Prop where
  once : (register.waiting ++ register.fated.map (·.1)).Perm (entered.mapIdx Item.mk)
  ordered : ((fatedBy Fate.isBroadcast register.fated ++ register.waiting).map (·.number)).Pairwise (· < ·)
  compacted : ∀ item flush, (item, Fate.compacted flush) ∈ register.fated →
    ∃ later, (later, Fate.broadcast flush) ∈ register.fated ∧
      later.revision.path = item.revision.path ∧ item.number < later.number

theorem fatedBy_append (fate : Fate → Bool) (first second : List (Item × Fate)) :
    fatedBy fate (first ++ second) = fatedBy fate first ++ fatedBy fate second := by
  simp [fatedBy]

private theorem fatedBy_cons (fate : Fate → Bool) (entry : Item × Fate) (rest : List (Item × Fate)) :
    fatedBy fate (entry :: rest) = if fate entry.2 then entry.1 :: fatedBy fate rest else fatedBy fate rest := by
  rw [fatedBy, List.filter_cons]
  split <;> rfl

theorem fatedBy_count (fated : List (Item × Fate)) :
    (fatedBy Fate.isBroadcast fated).length + (fatedBy Fate.isCompacted fated).length +
      (fatedBy Fate.isDropped fated).length + (fatedBy Fate.isPurged fated).length = fated.length := by
  induction fated with
  | nil => rfl
  | cons entry rest ih =>
    obtain ⟨item, fate⟩ := entry
    simp only [fatedBy_cons]
    cases fate <;>
      simp only [Fate.isBroadcast, Fate.isCompacted, Fate.isDropped, Fate.isPurged, if_true, if_false, List.length_cons,
        Bool.false_eq_true] <;>
      omega

theorem fatedBy_map (fate : Fate → Bool) (items : List Item) (same : Fate) :
    fatedBy fate (items.map (·, same)) = if fate same then items else [] := by
  induction items with
  | nil => simp [fatedBy]
  | cons item rest ih => cases held : fate same <;> simp_all [fatedBy]

private theorem fatedBy_judge_cons (flush : Nat) (item : Item) (rest : List Item) :
    fatedBy Fate.isBroadcast (judge flush (item :: rest)) =
      if rest.any (·.revision.path = item.revision.path) then fatedBy Fate.isBroadcast (judge flush rest)
      else item :: fatedBy Fate.isBroadcast (judge flush rest) := by
  rw [judge]
  split <;> simp [fatedBy, Fate.isBroadcast]

private theorem judge_items (flush : Nat) (items : List Item) : (judge flush items).map (·.1) = items := by
  induction items with
  | nil => rfl
  | cons item rest ih => rw [judge, List.map_cons, ih]

private theorem judge_sublist (flush : Nat) (items : List Item) :
    (fatedBy Fate.isBroadcast (judge flush items)).Sublist items := by
  have part : (fatedBy Fate.isBroadcast (judge flush items)).Sublist ((judge flush items).map (·.1)) :=
    List.filter_sublist.map _
  rwa [judge_items] at part

/-- A flush broadcasts what compaction leaves. -/
theorem judge_compact (flush : Nat) (items : List Item) :
    (fatedBy Fate.isBroadcast (judge flush items)).map (·.revision) = compact (items.map (·.revision)) := by
  induction items with
  | nil => rfl
  | cons item rest ih =>
    rw [fatedBy_judge_cons, List.map_cons, compact, List.any_map]
    simp only [Function.comp_def]
    split
    · exact ih
    · rw [List.map_cons, ih]

theorem judge_fate {flush : Nat} {items : List Item} {entry : Item × Fate} (member : entry ∈ judge flush items) :
    entry.2 = .broadcast flush ∨ entry.2 = .compacted flush := by
  induction items with
  | nil => cases member
  | cons item rest ih =>
    rw [judge] at member
    rcases List.mem_cons.mp member with rfl | later
    · dsimp only
      split
      · exact .inr rfl
      · exact .inl rfl
    · exact ih later

theorem judge_never {flush : Nat} {items : List Item} {fate : Fate → Bool} (broadcast : fate (.broadcast flush) = false)
    (compacted : fate (.compacted flush) = false) : fatedBy fate (judge flush items) = [] := by
  rw [fatedBy, List.map_eq_nil_iff, List.filter_eq_nil_iff]
  intro entry member
  rcases judge_fate member with same | same
  · rw [same, broadcast]
    exact Bool.false_ne_true
  · rw [same, compacted]
    exact Bool.false_ne_true

theorem judge_count (flush : Nat) (items : List Item) :
    (fatedBy Fate.isBroadcast (judge flush items)).length + (fatedBy Fate.isCompacted (judge flush items)).length =
      items.length := by
  have all := fatedBy_count (judge flush items)
  have each := congrArg List.length (judge_items flush items)
  have dropped : fatedBy Fate.isDropped (judge flush items) = [] := judge_never rfl rfl
  have purged : fatedBy Fate.isPurged (judge flush items) = [] := judge_never rfl rfl
  rw [dropped, purged] at all
  rw [List.length_map] at each
  simp only [List.length_nil] at all
  omega

private theorem judge_last (flush : Nat) {items : List Item} {path : String} (some_there : ∃ item ∈ items, item.revision.path = path) :
    ∃ item ∈ items, (item, Fate.broadcast flush) ∈ judge flush items ∧ item.revision.path = path := by
  induction items with
  | nil =>
    obtain ⟨item, member, -⟩ := some_there
    cases member
  | cons first rest ih =>
    by_cases later : ∃ item ∈ rest, item.revision.path = path
    · obtain ⟨item, member, broadcast, same⟩ := ih later
      exact ⟨item, List.mem_cons_of_mem _ member, List.mem_cons_of_mem _ broadcast, same⟩
    · obtain ⟨item, member, same⟩ := some_there
      rcases List.mem_cons.mp member with rfl | member
      · have alone : rest.any (·.revision.path = item.revision.path) = false := by
          simpa [same] using later
        refine ⟨item, List.mem_cons_self, ?_, same⟩
        rw [judge, alone]
        exact List.mem_cons_self
      · exact absurd ⟨item, member, same⟩ later

/-- What is compacted has a later item of its document that is broadcast. -/
theorem judge_followed {flush other : Nat} {items : List Item} (ordered : (items.map (·.number)).Pairwise (· < ·)) {item : Item}
    (compacted : (item, Fate.compacted other) ∈ judge flush items) :
    ∃ later, (later, Fate.broadcast other) ∈ judge flush items ∧
      later.revision.path = item.revision.path ∧ item.number < later.number := by
  induction items with
  | nil => cases compacted
  | cons first rest ih =>
    rw [List.map_cons, List.pairwise_cons] at ordered
    rw [judge] at compacted ⊢
    rcases List.mem_cons.mp compacted with here | there
    · split at here
      next followed =>
        cases here
        obtain ⟨found, member, same⟩ := List.any_eq_true.mp followed
        obtain ⟨later, inside, broadcast, path⟩ := judge_last flush ⟨found, member, of_decide_eq_true same⟩
        exact ⟨later, List.mem_cons_of_mem _ broadcast, path, ordered.1 _ (List.mem_map_of_mem inside)⟩
      next => cases here
    · obtain ⟨later, broadcast, rest⟩ := ih ordered.2 there
      exact ⟨later, List.mem_cons_of_mem _ broadcast, rest⟩

namespace Register.Sound
variable {entered : List Revision} {register : Register}

theorem size_eq (sound : Sound entered register) : register.size = entered.length := by
  have counted := sound.once.length_eq
  simpa [Register.size] using counted

private theorem number_lt (sound : Sound entered register) {item : Item}
    (member : item ∈ register.waiting ++ register.fated.map (·.1)) : item.number < entered.length := by
  obtain ⟨number, inside, rfl⟩ := List.mem_mapIdx.mp (sound.once.mem_iff.mp member)
  exact inside

/-- A revision that enters gets the next number. -/
theorem append (sound : Sound entered register) (revision : Revision) :
    Sound (entered ++ [revision]) { register with waiting := register.waiting ++ [⟨register.size, revision⟩] } := by
  refine ⟨?_, ?_, sound.compacted⟩
  · rw [List.mapIdx_concat, ← sound.size_eq]
    have moved := sound.once.append_right [⟨register.size, revision⟩]
    apply List.Perm.trans _ moved
    rw [List.append_assoc, List.append_assoc]
    exact List.perm_append_comm.append_left _
  · rw [← List.append_assoc, List.map_append, List.pairwise_append]
    refine ⟨sound.ordered, List.pairwise_singleton _ _, ?_⟩
    intro number earlier other last
    cases List.mem_singleton.mp last
    obtain ⟨item, member, rfl⟩ := List.mem_map.mp earlier
    rw [sound.size_eq]
    apply sound.number_lt
    rcases List.mem_append.mp member with left | waiting
    · obtain ⟨entry, there, rfl⟩ := List.mem_map.mp left
      exact List.mem_append_right _ (List.mem_map_of_mem (List.mem_filter.mp there).1)
    · exact List.mem_append_left _ waiting

/-- Some items leave, and the others stay. What is broadcast stands in front of what stays. -/
theorem leave (sound : Sound entered register) (flushes : Nat) {waiting : List Item} {added : List (Item × Fate)}
    (split : (waiting ++ added.map (·.1)).Perm register.waiting)
    (order : (fatedBy Fate.isBroadcast added ++ waiting).Sublist register.waiting)
    (followed : ∀ item flush, (item, Fate.compacted flush) ∈ added →
      ∃ later, (later, Fate.broadcast flush) ∈ added ∧
        later.revision.path = item.revision.path ∧ item.number < later.number) :
    Sound entered { flushes, waiting, fated := register.fated ++ added } := by
  constructor
  · apply List.Perm.trans _ sound.once
    rw [List.map_append]
    apply (List.perm_append_comm.append_left waiting).trans
    rw [← List.append_assoc]
    exact split.append_right _
  · refine List.Pairwise.sublist ?_ sound.ordered
    rw [fatedBy_append, List.append_assoc]
    exact (order.append_left _).map _
  · intro item flush member
    rcases List.mem_append.mp member with before | now
    · obtain ⟨later, there, rest⟩ := sound.compacted item flush before
      exact ⟨later, List.mem_append_left _ there, rest⟩
    · obtain ⟨later, there, rest⟩ := followed item flush now
      exact ⟨later, List.mem_append_right _ there, rest⟩

theorem enter (sound : Sound entered register) (limit : Nat) (revision : Revision) :
    Sound (entered ++ [revision]) (register.enter limit revision) := by
  apply (sound.append revision).leave register.flushes
  · rw [List.map_map]
    simp only [Function.comp_def, List.map_id']
    exact List.perm_append_comm.trans (List.Perm.of_eq (List.take_append_drop _ _))
  · rw [fatedBy_map]
    exact List.drop_sublist _ _
  · intro item flush member
    obtain ⟨other, -, same⟩ := List.mem_map.mp member
    cases same

theorem purge (sound : Sound entered register) (path : String) (conflict : Uuid) :
    Sound entered (register.purge path conflict) := by
  apply sound.leave register.flushes
  · rw [List.map_map]
    simp only [Function.comp_def, List.map_id']
    have split := List.filter_append_perm (·.revision.path = path) register.waiting
    simp only [← decide_not] at split
    exact List.perm_append_comm.trans split
  · rw [fatedBy_map]
    exact List.filter_sublist
  · intro item flush member
    obtain ⟨other, -, same⟩ := List.mem_map.mp member
    cases same

theorem flush (sound : Sound entered register) : Sound entered register.flush := by
  apply sound.leave (register.flushes + 1)
  · rw [judge_items]
    exact .refl _
  · rw [List.append_nil]
    exact judge_sublist _ _
  · intro item flush member
    have ordered := sound.ordered
    rw [List.map_append, List.pairwise_append] at ordered
    exact judge_followed ordered.2.1 member

end Register.Sound

theorem Register.enter_cases (register : Register) (limit : Nat) (revision : Revision) :
    (register.waiting.length < limit ∧
      register.enter limit revision = { register with waiting := register.waiting ++ [⟨register.size, revision⟩] }) ∨
    ∃ first rest, limit ≤ register.waiting.length ∧ register.waiting ++ [⟨register.size, revision⟩] = first :: rest ∧
      register.enter limit revision =
        { register with waiting := rest, fated := register.fated ++ [(first, .dropped)] } := by
  cases shape : register.waiting ++ [⟨register.size, revision⟩] with
  | nil => simp at shape
  | cons first rest =>
    have size : register.waiting.length = rest.length := by
      simpa using congrArg List.length shape
    by_cases full : limit < rest.length + 1
    · right
      refine ⟨first, rest, by omega, rfl, ?_⟩
      simp [enter, shape, full]
    · left
      refine ⟨by omega, ?_⟩
      simp [enter, shape, full]

end FreshDocs.Sync.Hub
