import FreshDocs.Proofs.SnapshotContents
import FreshDocs.Proofs.StoreRecency
import Mathlib.Data.List.Induction

/-! What a read gives, told by everything that was asked of the store before. A key gives the value that was stored
under it last, as long as nothing that was asked since has taken it away and its time has not run out. Reading does
not prolong this time. -/

namespace FreshDocs.Store
open Std

variable {α : Type}

/-! ### Items by their keys -/

/-- The items that have to go for the limits to hold: those used longest ago, and no more than necessary. -/
def Limits.victims (limits : Limits) (items : List (Item α)) : List (Item α) :=
  items.take (Nat.find (limits.exists_hold items))

theorem Limits.victims_append_trim (limits : Limits) (items : List (Item α)) :
    limits.victims items ++ limits.trim items = items :=
  List.take_append_drop _ _

private theorem Limits.mem_trim {limits : Limits} {items : List (Item α)} (distinct : (items.map (·.key)).Nodup) {item : Item α} :
    item ∈ limits.trim items ↔ item ∈ items ∧ item.key ∉ (limits.victims items).map (·.key) := by
  have parts := limits.victims_append_trim items
  rw [← parts, List.map_append, List.nodup_append] at distinct
  have listed : item ∈ items ↔ item ∈ limits.victims items ∨ item ∈ limits.trim items := by
    rw [← List.mem_append, parts]
  rw [listed]
  constructor
  · intro kept
    exact ⟨.inr kept, fun gone => distinct.2.2 _ gone _ (List.mem_map_of_mem kept) rfl⟩
  · rintro ⟨gone | kept, spared⟩
    · exact (spared (List.mem_map_of_mem gone)).elim
    · exact kept

namespace Recency

theorem mem_without {recency : Recency α} {key : String} {item : Item α} :
    item ∈ recency.without key ↔ item ∈ recency.items ∧ item.key ≠ key := by
  simp [without]

section
variable {recency : Recency α} (distinct : (recency.items.map (·.key)).Nodup)
include distinct

private theorem find?_eq_some {key : String} {item : Item α} :
    recency.find? key = some item ↔ item ∈ recency.items ∧ item.key = key := by
  constructor
  · intro found
    exact ⟨List.mem_of_find?_eq_some found, by simpa using List.find?_some found⟩
  · rintro ⟨member, rfl⟩
    cases found : recency.find? item.key with
    | none => simpa using List.find?_eq_none.mp found item member
    | some other =>
      have same : other.key = item.key := by simpa using List.find?_some found
      rw [List.inj_on_of_nodup_map distinct (List.mem_of_find?_eq_some found) member same]

theorem serve?_eq_some {now : Timestamp} {key : String} {digest : Option Digest} {item : Item α} :
    recency.serve? now key digest = some item ↔ item ∈ recency.items ∧ item.key = key ∧
      recency.isExpired now item = false ∧ ∀ asked ∈ digest, asked = item.digest := by
  rw [serve?, Option.filter_eq_some_iff, find?_eq_some distinct, and_assoc]
  cases digest <;> simp

/-- A read takes away at most the item of its own key, and this one only where it serves nothing. -/
theorem mem_get {now : Timestamp} {key : String} {digest : Option Digest} {item : Item α} :
    item ∈ (recency.get now key digest).items ↔
      item ∈ recency.items ∧ (key = item.key → recency.serve? now key digest ≠ none) := by
  rw [get, List.mem_append, Option.mem_toList, mem_without]
  constructor
  · rintro (⟨old, other⟩ | served)
    · exact ⟨old, fun same => (other same.symm).elim⟩
    · refine ⟨((serve?_eq_some distinct).mp served).1, fun _ missed => ?_⟩
      cases missed.symm.trans served
  · rintro ⟨old, hit⟩
    by_cases same : key = item.key
    · obtain ⟨served, found⟩ := Option.ne_none_iff_exists'.mp (hit same)
      obtain ⟨member, named, -⟩ := (serve?_eq_some distinct).mp found
      rw [found, List.inj_on_of_nodup_map distinct member old (named.trans same)]
      exact .inr rfl
    · exact .inl ⟨old, Ne.symm same⟩

end

end Recency

theorem Coherent.distinct {store : Store α} (valid : Coherent store) : (store.recency.items.map (·.key)).Nodup :=
  valid.keys_items ▸ valid.keys_nodup

/-! ### What an operation takes away -/

section
variable [ToJson α]

/-- What is stored for a value. Without a digest of its own it has that of its compact text. -/
def Item.new (weigh : α → Nat) (now : Timestamp) (key : String) (value : α) (digest : Option Digest) : Item α :=
  { key, value, digest := digest.getD (Digest.ofText (toJson value).compact), storedAt := now, size := weigh value }

/-- The keys that a request evicts. A value that is stored may have to go at once. -/
def Request.evicts (now : Timestamp) (store : Store α) : Request α → List String
  | .set key value digest =>
    (store.limits.victims (store.recency.without key ++ [.new store.weigh now key value digest])).map (·.key)
  | .resize maxSize maxEntries =>
    ((store.recency.resize maxSize maxEntries).limits.victims store.recency.items).map (·.key)
  | .get .. | .has _ | .peek _ | .delete _ | .clear | .sweep => []

/-- What has been stored under a key before is not there any more after the operation. -/
def Operation.Ends (now : Timestamp) (store : Store α) (key : String) : Operation α → Prop
  | .ask (.set other value digest) => other = key ∨ key ∈ (Request.set other value digest).evicts now store
  | .ask (.resize maxSize maxEntries) => key ∈ (Request.resize maxSize maxEntries).evicts now store
  | .ask (.get other digest) => other = key ∧ (store.get now other digest).1 = none
  | .ask (.delete other) => other = key
  | .ask .clear => True
  | .ask .sweep => key ∈ store.expiredKeys now
  | .ask (.has _) | .ask (.peek _) | .readDigest _ | .readStats => False

/-- None of the operations, asked one after the other, takes away what is stored under a key. -/
def Lasts (key : String) (store : Store α) : List (Timestamp × Operation α) → Prop
  | [] => True
  | (now, operation) :: rest => ¬operation.Ends now store key ∧ Lasts key (operation.apply now store) rest

/-- The value was stored under the key at this time, and has not been taken away since. -/
def Standing (store : Store α) (operations : List (Timestamp × Operation α)) (storedAt : Timestamp) (key : String)
    (value : α) (digest : Option Digest) : Prop :=
  ∃ before after, operations = before ++ (storedAt, .ask (.set key value digest)) :: after ∧
    key ∉ (Request.set key value digest).evicts storedAt (operate store before) ∧
    Lasts key (operate store (before ++ [(storedAt, .ask (.set key value digest))])) after

theorem operate_append (store : Store α) (first second : List (Timestamp × Operation α)) :
    operate store (first ++ second) = operate (operate store first) second := by
  induction first generalizing store with
  | nil => rfl
  | cons entry rest ih => exact ih _

private theorem lasts_append {key : String} {store : Store α} {first second : List (Timestamp × Operation α)} :
    Lasts key store (first ++ second) ↔ Lasts key store first ∧ Lasts key (operate store first) second := by
  induction first generalizing store with
  | nil => simp [Lasts, operate]
  | cons entry rest ih => rw [List.cons_append, Lasts, Lasts, ih, and_assoc, operate]

section
variable {store : Store α}

private theorem Coherent.distinct_set (valid : Coherent store) (now : Timestamp) (key : String) (value : α)
    (digest : Option Digest) :
    ((store.recency.without key ++ [Item.new store.weigh now key value digest]).map (·.key)).Nodup := by
  rw [List.map_append, List.nodup_append]
  refine ⟨(List.filter_sublist.map _).nodup valid.distinct, List.nodup_singleton _, ?_⟩
  intro other member last single
  obtain ⟨item, kept, rfl⟩ := List.mem_map.mp member
  rw [List.map_singleton, List.mem_singleton] at single
  rw [single]
  exact (Recency.mem_without.mp kept).2

/-- What a store holds after an operation was put into it just now, or was there and has not been taken away. -/
theorem Coherent.mem_operation (valid : Coherent store) (now : Timestamp) (operation : Operation α) {item : Item α} :
    item ∈ (operation.apply now store).recency.items ↔
      (∃ value digest, operation = .ask (.set item.key value digest) ∧
        item = .new store.weigh now item.key value digest ∧
        item.key ∉ (Request.set item.key value digest).evicts now store) ∨
      item ∈ store.recency.items ∧ ¬operation.Ends now store item.key := by
  rw [valid.recency_apply now operation]
  cases operation with
  | readDigest | readStats => simp [Recency.apply, Operation.Ends]
  | ask request =>
    cases request with
    | set key value digest =>
      have trimmed : (Recency.apply now store.recency (.ask (.set key value digest))).items =
          store.limits.trim (store.recency.without key ++ [Item.new store.weigh now key value digest]) := rfl
      rw [trimmed, Limits.mem_trim (valid.distinct_set now key value digest), List.mem_append, List.mem_singleton,
        Recency.mem_without]
      constructor
      · rintro ⟨⟨old, other⟩ | rfl, spared⟩
        · exact .inr ⟨old, not_or.mpr ⟨Ne.symm other, spared⟩⟩
        · exact .inl ⟨value, digest, rfl, rfl, spared⟩
      · rintro (⟨value, digest, same, shape, spared⟩ | ⟨old, kept⟩)
        · cases same
          exact ⟨.inr shape, spared⟩
        · exact ⟨.inl ⟨old, fun same => kept (.inl same.symm)⟩, fun gone => kept (.inr gone)⟩
    | get key digest =>
      have missed : (store.get now key digest).1 = none ↔ store.recency.serve? now key digest = none := by
        rw [(valid.get_items now key digest).1, Option.map_eq_none_iff]
      simp [Recency.apply, Operation.Ends, Recency.mem_get valid.distinct, missed]
    | has | peek => simp [Recency.apply, Operation.Ends]
    | delete key => simp [Recency.apply, Operation.Ends, Recency.mem_without, eq_comm]
    | clear => simp [Recency.apply, Operation.Ends]
    | resize maxSize maxEntries =>
      simp [Recency.apply, Operation.Ends, Request.evicts, Recency.resize, Limits.mem_trim valid.distinct]
    | sweep =>
      simp only [Recency.apply, Recency.sweep, List.mem_filter, Operation.Ends, Operation.ask.injEq, reduceCtorEq,
        false_and, exists_false, false_or]
      refine and_congr_right fun member => ?_
      obtain ⟨entry, present, shape⟩ := valid.mem_items.mp member
      rw [mem_expiredKeys present, ← shape]
      simp [Recency.isExpired, isExpired, recency, Item.of]

end

/-! ### The whole history -/

/-- Something stands after one more operation if it was stored by it, or stood before and was not taken away by it. -/
theorem standing_concat {store : Store α} {operations : List (Timestamp × Operation α)} {now storedAt : Timestamp}
    {operation : Operation α} {key : String} {value : α} {digest : Option Digest} :
    Standing store (operations ++ [(now, operation)]) storedAt key value digest ↔
      (storedAt = now ∧ operation = .ask (.set key value digest) ∧
        key ∉ (Request.set key value digest).evicts now (operate store operations)) ∨
      Standing store operations storedAt key value digest ∧ ¬operation.Ends now (operate store operations) key := by
  constructor
  · rintro ⟨before, after, shape, spared, lasts⟩
    rcases List.eq_nil_or_concat after with rfl | ⟨rest, last, rfl⟩
    · obtain ⟨rfl, same⟩ := List.append_inj' shape rfl
      cases same
      exact .inl ⟨rfl, rfl, spared⟩
    · rw [List.concat_eq_append, ← List.cons_append, ← List.append_assoc] at shape
      obtain ⟨rfl, same⟩ := List.append_inj' shape rfl
      cases same
      rw [List.concat_eq_append, lasts_append, ← operate_append, List.append_assoc] at lasts
      exact .inr ⟨⟨before, rest, rfl, spared, lasts.1⟩, lasts.2.1⟩
  · rintro (⟨rfl, rfl, spared⟩ | ⟨⟨before, after, rfl, spared, lasts⟩, kept⟩)
    · exact ⟨operations, [], rfl, spared, trivial⟩
    · refine ⟨before, after ++ [(now, operation)], by simp, spared, lasts_append.mpr ⟨lasts, ?_, trivial⟩⟩
      rwa [← operate_append, List.append_assoc]

private theorem Recency.operate_keeps (recency : Recency α) (operations : List (Timestamp × Operation α)) :
    (recency.operate operations).weigh = recency.weigh ∧
      (recency.operate operations).limits.ttl = recency.limits.ttl := by
  induction operations generalizing recency with
  | nil => exact ⟨rfl, rfl⟩
  | cons entry rest ih =>
    obtain ⟨now, operation⟩ := entry
    have next := ih (recency.apply now operation)
    cases operation with
    | readDigest | readStats => exact next
    | ask request => cases request <;> exact next

section
variable (limits : Limits) (weigh : α → Nat) (operations : List (Timestamp × Operation α))

theorem operate_valid : Coherent (operate { limits, weigh } operations) :=
  ((Coherent.initial limits weigh).recency_operate operations).1

theorem operate_weigh : (operate { limits, weigh } operations).weigh = weigh := by
  have same := ((Coherent.initial limits weigh).recency_operate operations).2
  exact (congrArg Recency.weigh same).trans (Recency.operate_keeps _ operations).1

theorem operate_ttl : (operate { limits, weigh } operations).limits.ttl = limits.ttl := by
  have same := ((Coherent.initial limits weigh).recency_operate operations).2
  exact (congrArg (·.limits.ttl) same).trans (Recency.operate_keeps _ operations).2

/-- A store holds what was put into it and has been left there since, and nothing else. -/
theorem mem_operate {item : Item α} :
    item ∈ (operate { limits, weigh } operations).recency.items ↔
      ∃ storedAt value digest, item = .new weigh storedAt item.key value digest ∧
        Standing { limits, weigh } operations storedAt item.key value digest := by
  -- By induction on what was asked last, since that decides about everything that was there before.
  induction operations using List.reverseRecOn with
  | nil =>
    have empty : (operate { limits, weigh } ([] : List (Timestamp × Operation α))).recency.items = [] :=
      List.eq_nil_of_length_eq_zero (Coherent.initial limits weigh).length_items
    rw [empty]
    constructor
    · rintro ⟨⟩
    · rintro ⟨storedAt, value, digest, -, before, after, shape, -⟩
      cases (List.append_eq_nil_iff.mp shape.symm).2
  | append_singleton before entry ih =>
    obtain ⟨now, operation⟩ := entry
    have weighed := operate_weigh limits weigh before
    rw [operate_append, operate, operate, (operate_valid limits weigh before).mem_operation now operation, ih, weighed]
    simp only [standing_concat]
    constructor
    · rintro (⟨value, digest, asked, shape, spared⟩ | ⟨⟨storedAt, value, digest, shape, stood⟩, kept⟩)
      · exact ⟨now, value, digest, shape, .inl ⟨rfl, asked, spared⟩⟩
      · exact ⟨storedAt, value, digest, shape, .inr ⟨stood, kept⟩⟩
    · rintro ⟨storedAt, value, digest, shape, ⟨rfl, asked, spared⟩ | ⟨stood, kept⟩⟩
      · exact .inl ⟨value, digest, asked, shape, spared⟩
      · exact .inr ⟨⟨storedAt, value, digest, shape, stood⟩, kept⟩

/-- A read serves a value if and only if it was stored under the key, nothing that was asked since has taken it away,
its time has not run out, and its digest is the one asked for, if one is. The three ways to look a key up agree. -/
theorem operate_get_eq_some (key : String) (now : Timestamp) :
    let store := operate { limits, weigh } operations
    (∀ digest value, (store.get now key digest).1 = some value ↔
      ∃ storedAt given, Standing { limits, weigh } operations storedAt key value given ∧
        now.nanosSince storedAt ≤ limits.ttl * 1000000 ∧
        ∀ asked ∈ digest, asked = given.getD (Digest.ofText (toJson value).compact)) ∧
      store.has now key = (store.peek now key).isSome ∧ store.peek now key = (store.get now key none).1 := by
  intro store
  have valid : Coherent store := operate_valid limits weigh operations
  have ttl : store.limits.ttl = limits.ttl := operate_ttl limits weigh operations
  have young (storedAt : Timestamp) : Timestamp.olderThan store.limits.ttl storedAt now = false ↔
      now.nanosSince storedAt ≤ limits.ttl * 1000000 := by
    rw [ttl, Timestamp.olderThan, decide_eq_false_iff_not, Int.not_lt]
  refine ⟨fun digest value => ?_, rfl, ?_⟩
  · rw [(valid.get_items now key digest).1, Option.map_eq_some_iff]
    constructor
    · rintro ⟨item, served, rfl⟩
      obtain ⟨member, rfl, fresh, asked⟩ := (Recency.serve?_eq_some valid.distinct).mp served
      obtain ⟨storedAt, value, given, shape, stood⟩ := (mem_operate limits weigh operations).mp member
      generalize item.key = key at shape stood
      subst shape
      exact ⟨storedAt, given, stood, (young storedAt).mp fresh, asked⟩
    · rintro ⟨storedAt, given, stood, fresh, asked⟩
      refine ⟨.new weigh storedAt key value given, ?_, rfl⟩
      refine (Recency.serve?_eq_some valid.distinct).mpr ⟨?_, rfl, (young storedAt).mpr fresh, asked⟩
      exact (mem_operate limits weigh operations).mpr ⟨storedAt, value, given, rfl, stood⟩
  · unfold peek get
    cases store.find? key with
    | none => rfl
    | some entry => cases expired : store.isExpired now entry <;> simp [expired]

end

end

end FreshDocs.Store
