import FreshDocs.Proofs.StoreCounters
import Mathlib.Algebra.Order.BigOperators.Group.List
import Mathlib.Algebra.Order.Ring.Nat

/-! Sweeping a store only makes room. What a sweep takes away would not have been served any more, and goes by itself as
soon as somebody asks for it, so whoever reads cannot tell whether the store was swept. For the list of uses this is an
equation: to sweep, and then to ask for something, is the same as to ask first and to sweep then. -/

namespace FreshDocs.Store
open Std

variable {α : Type}

/-! ### Sweeping a list of uses -/

namespace Recency
variable {recency : Recency α} {time now : Timestamp}

theorem isExpired_mono (later : time ≤ now) {item : Item α} (fresh : recency.isExpired now item = false) :
    recency.isExpired time item = false := by
  have young : ¬(recency.limits.ttl : Int) * 1000000 < now.nanosSince item.storedAt := of_decide_eq_false fresh
  refine decide_eq_false fun old => young ?_
  exact Int.lt_of_lt_of_le old (Int.sub_le_sub_right later _)

private theorem mem_sweep {item : Item α} :
    item ∈ (recency.sweep time).items ↔ item ∈ recency.items ∧ recency.isExpired time item = false := by
  simp [sweep]

private theorem distinct_sweep (distinct : (recency.items.map (·.key)).Nodup) :
    ((recency.sweep time).items.map (·.key)).Nodup :=
  (List.filter_sublist.map _).nodup distinct

private theorem without_sweep (key : String) :
    (recency.sweep time).without key = (recency.without key).filter (!recency.isExpired time ·) := by
  simp only [without, sweep, List.filter_filter]
  congr 1
  funext item
  exact Bool.and_comm _ _

/-- What a sweep takes away would not be served. -/
theorem serve?_sweep (distinct : (recency.items.map (·.key)).Nodup) (later : time ≤ now) (key : String)
    (digest : Option Digest) : (recency.sweep time).serve? now key digest = recency.serve? now key digest := by
  apply Option.ext
  intro item
  rw [serve?_eq_some distinct, serve?_eq_some (distinct_sweep distinct), mem_sweep]
  have same : (recency.sweep time).isExpired now item = recency.isExpired now item := rfl
  rw [same]
  constructor
  · rintro ⟨⟨member, -⟩, named, fresh, asked⟩
    exact ⟨member, named, fresh, asked⟩
  · rintro ⟨member, named, fresh, asked⟩
    exact ⟨⟨member, isExpired_mono later fresh⟩, named, fresh, asked⟩

end Recency

theorem Limits.Hold.sublist {limits : Limits} {items fewer : List (Item α)} (hold : limits.Hold items)
    (sublist : fewer.Sublist items) : limits.Hold fewer := by
  have lighter : (fewer.map (·.size)).sum ≤ (items.map (·.size)).sum :=
    (sublist.map (·.size)).sum_le_sum fun _ _ => Nat.zero_le _
  exact ⟨Nat.le_trans lighter hold.1, Nat.le_trans sublist.length_le hold.2⟩

section
variable [ToJson α]

/-- The limits hold when a request has had its effect, before any room is made. -/
def Recency.Fits (now : Timestamp) (recency : Recency α) : Request α → Prop
  | .set key value digest => recency.limits.Hold (recency.without key ++ [.new recency.weigh now key value digest])
  | .resize maxSize maxEntries => (recency.resize maxSize maxEntries).limits.Hold recency.items
  | .get .. | .has _ | .peek _ | .delete _ | .clear | .sweep => True

/-- To sweep before a request is the same as to sweep after it, if no room has to be made. -/
theorem Recency.apply_sweep {recency : Recency α} {time now : Timestamp} (distinct : (recency.items.map (·.key)).Nodup)
    (later : time ≤ now) {request : Request α} (fits : recency.Fits now request) :
    Recency.apply now (recency.sweep time) (.ask request) = (Recency.apply now recency (.ask request)).sweep time := by
  cases request with
  | has | peek | clear => rfl
  | set key value digest =>
    -- what is stored at this time was not stored before the sweep
    have fresh : recency.isExpired time (.new recency.weigh now key value digest) = false := by
      refine decide_eq_false fun old => ?_
      have passed : time.toNanos ≤ now.toNanos := later
      simp only [Timestamp.nanosSince, Item.new] at old
      omega
    have swept : (recency.sweep time).without key ++ [Item.new recency.weigh now key value digest] =
        (recency.without key ++ [Item.new recency.weigh now key value digest]).filter (!recency.isExpired time ·) := by
      rw [without_sweep, List.filter_append]
      simp [fresh]
    have fewer := Limits.trim_of_hold (Limits.Hold.sublist fits (swept ▸ List.filter_sublist))
    have all := Limits.trim_of_hold fits
    refine Recency.ext rfl rfl ?_
    refine fewer.trans (swept.trans ?_)
    exact congrArg (List.filter _) all.symm
  | get key digest =>
    refine Recency.ext rfl rfl ?_
    have kept : (recency.serve? now key digest).toList.filter (!recency.isExpired time ·) =
        (recency.serve? now key digest).toList := by
      refine List.filter_eq_self.mpr fun item served => ?_
      obtain ⟨-, -, fresh, -⟩ := (serve?_eq_some distinct).mp (Option.mem_toList.mp served)
      rw [isExpired_mono later fresh, Bool.not_false]
    have parted := List.filter_append (p := (!recency.isExpired time ·)) (recency.without key)
      (recency.serve? now key digest).toList
    rw [kept] at parted
    simp only [Recency.apply, Recency.get, serve?_sweep distinct later, without_sweep]
    exact parted.symm
  | delete key => exact Recency.ext rfl rfl (without_sweep key)
  | resize maxSize maxEntries =>
    have fewer := Limits.trim_of_hold (Limits.Hold.sublist fits (List.filter_sublist (p := (!recency.isExpired time ·))))
    have all := Limits.trim_of_hold fits
    refine Recency.ext rfl rfl (fewer.trans ?_)
    exact congrArg (List.filter _) all.symm
  | sweep =>
    refine Recency.ext rfl rfl ?_
    simp only [Recency.apply, sweep, List.filter_filter]
    congr 1
    funext item
    exact Bool.and_comm _ _

end

/-! ### Sweeping a store -/

/-- What is answered to a request that reads. -/
inductive Reply (α : Type) where
  | value (found : Option α)
  | presence (found : Bool)
  deriving DecidableEq

def Request.replies (now : Timestamp) (store : Store α) : Request α → List (Reply α)
  | .get key digest => [.value (store.get now key digest).1]
  | .peek key => [.value (store.peek now key)]
  | .has key => [.presence (store.has now key)]
  | .set .. | .delete _ | .clear | .resize .. | .sweep => []

theorem peek_eq_get (store : Store α) (now : Timestamp) (key : String) :
    store.peek now key = (store.get now key none).1 := by
  unfold peek get
  cases store.find? key with
  | none => rfl
  | some entry => cases expired : store.isExpired now entry <;> simp [expired]

/-- One store holds what another does, less what has expired at some time. -/
structure Swept (time : Timestamp) (store swept : Store α) : Prop where
  whole : Coherent store
  rest : Coherent swept
  recency : swept.recency = store.recency.sweep time

namespace Swept
variable {time now : Timestamp} {store swept : Store α}

theorem get_eq (related : Swept time store swept) (later : time ≤ now) (key : String) (digest : Option Digest) :
    (swept.get now key digest).1 = (store.get now key digest).1 := by
  rw [(related.rest.get_items now key digest).1, (related.whole.get_items now key digest).1, related.recency,
    Recency.serve?_sweep related.whole.distinct later]

private theorem replies_eq (related : Swept time store swept) (later : time ≤ now) (request : Request α) :
    request.replies now swept = request.replies now store := by
  cases request with
  | get key digest => rw [Request.replies, related.get_eq later, Request.replies]
  | peek key => rw [Request.replies, peek_eq_get, related.get_eq later, ← peek_eq_get, Request.replies]
  | has key => rw [Request.replies, has, peek_eq_get, related.get_eq later, ← peek_eq_get, Request.replies, has]
  | set | delete | clear | resize | sweep => rfl

private theorem readings_eq (related : Swept time store swept) (later : time ≤ now) (request : Request α) :
    request.readings now swept = request.readings now store := by
  cases request with
  | get key digest => rw [Request.readings, related.get_eq later, Request.readings]
  | set | has | peek | delete | clear | resize | sweep => rfl

end Swept

section
variable [ToJson α]

/-- No request of the run evicts anything. -/
def Spares (store : Store α) : List (Timestamp × Request α) → Prop
  | [] => True
  | (now, request) :: rest =>
    (request.apply now store).evictions = store.evictions ∧ Spares (request.apply now store) rest

theorem Coherent.fits {store : Store α} (valid : Coherent store) (now : Timestamp) {request : Request α}
    (spares : (request.apply now store).evictions = store.evictions) : store.recency.Fits now request := by
  cases request with
  | get | has | peek | delete | clear | sweep => trivial
  | set key value digest =>
    have holds := (valid.stored now key value digest).hold_of_spared
      (spares.trans (Losses.drop store key).evictions.symm)
    rwa [valid.items_stored, limits_stored] at holds
  | resize maxSize maxEntries =>
    exact (valid.relimited (store.recency.resize maxSize maxEntries).limits).hold_of_spared spares

namespace Swept
variable {time now : Timestamp} {store swept : Store α}

theorem initial (valid : Coherent store) (time : Timestamp) : Swept time store (store.sweep time).2 :=
  ⟨valid, valid.apply time .sweep, valid.recency_apply time (.ask .sweep)⟩

theorem apply (related : Swept time store swept) (later : time ≤ now) {request : Request α}
    (spares : (request.apply now store).evictions = store.evictions) :
    Swept time (request.apply now store) (request.apply now swept) := by
  refine ⟨related.whole.apply now request, related.rest.apply now request, ?_⟩
  have fits := related.whole.fits now spares
  calc (request.apply now swept).recency
    _ = Recency.apply now swept.recency (.ask request) := related.rest.recency_apply now (.ask request)
    _ = Recency.apply now (store.recency.sweep time) (.ask request) := by rw [related.recency]
    _ = (Recency.apply now store.recency (.ask request)).sweep time :=
      Recency.apply_sweep related.whole.distinct later fits
    _ = (request.apply now store).recency.sweep time := by rw [← related.whole.recency_apply now (.ask request)]; rfl

theorem run (related : Swept time store swept) {requests : List (Timestamp × Request α)}
    (later : ∀ entry ∈ requests, time ≤ entry.1) (spares : Spares store requests) :
    told Request.replies swept requests = told Request.replies store requests ∧
      told Request.readings swept requests = told Request.readings store requests := by
  induction requests generalizing store swept with
  | nil => exact ⟨rfl, rfl⟩
  | cons entry rest ih =>
    obtain ⟨now, request⟩ := entry
    obtain ⟨first, others⟩ := List.forall_mem_cons.mp later
    obtain ⟨replies, readings⟩ := ih (related.apply first spares.1) others spares.2
    simp only [told, replies, readings, related.replies_eq first, related.readings_eq first, and_self]

end Swept

instance decidableSpares : (store : Store α) → (requests : List (Timestamp × Request α)) → Decidable (Spares store requests)
  | _, [] => .isTrue trivial
  | store, (now, request) :: rest =>
    @instDecidableAnd _ _ _ (decidableSpares (request.apply now store) rest)

theorem run_eq_operate (store : Store α) (requests : List (Timestamp × Request α)) :
    Store.run store requests = operate store (requests.map fun entry => (entry.1, .ask entry.2)) := by
  induction requests generalizing store with
  | nil => rfl
  | cons entry rest ih => exact ih _

/-- At all times a sweep removes the entries that are older than the limit allows, counts them and keeps the order of
the others. From then on, as long as no request evicts anything, whoever reads gets the same from the swept store as
from one that was not swept, and both count the same hits and misses. -/
theorem run_sweep_unnoticed (limits : Limits) (weigh : α → Nat) (requests : List (Timestamp × Request α))
    (time : Timestamp) :
    let store := run { limits, weigh } requests
    let swept := (store.sweep time).2
    (∀ key entry, swept.find? key = some entry ↔
      store.find? key = some entry ∧ time.nanosSince entry.storedAt ≤ limits.ttl * 1000000) ∧
    (store.sweep time).1 = store.keys.countP (store.isStale time) ∧
    swept.keys = store.keys.filter (!store.isStale time ·) ∧
    ∀ later, (∀ entry ∈ later, time ≤ entry.1) → Spares store later →
      told Request.replies swept later = told Request.replies store later ∧
        (run swept later).hits = (run store later).hits ∧ (run swept later).misses = (run store later).misses := by
  intro store swept
  have valid : Coherent store := (run_coherent_within_limits limits weigh requests).1
  have ttl : store.limits.ttl = limits.ttl := by
    have same : store = operate { limits, weigh } _ := run_eq_operate _ requests
    rw [same, operate_ttl]
  refine ⟨fun key entry => ?_, ?_, ?_, fun later after spares => ?_⟩
  · have without := Without.drops (store.expiredKeys time) store key entry
    have swept_find : swept.find? key = ((store.expiredKeys time).foldl drop store).find? key := rfl
    rw [swept_find, without]
    refine and_congr_right fun found => ?_
    have expired : key ∈ store.expiredKeys time ↔ store.isExpired time entry = true := mem_expiredKeys found
    rw [isExpired, Timestamp.olderThan, ttl, decide_eq_true_iff] at expired
    exact (not_congr expired).trans Int.not_lt
  · rw [List.countP_eq_length_filter]
    exact (valid.expiredKeys_perm time).length_eq
  · exact valid.keys_sweep time
  · obtain ⟨replies, readings⟩ := (Swept.initial valid time).run after spares
    have counted := counts_run store later
    have others := counts_run swept later
    have quiet : Counts 0 0 store swept := .sweep store time
    have readings : told Request.readings swept later = told Request.readings store later := readings
    rw [readings] at others
    exact ⟨replies, by rw [others.hits, counted.hits, quiet.hits, Nat.add_zero],
      by rw [others.misses, counted.misses, quiet.misses, Nat.add_zero]⟩

end

/-- Two values are stored eight milliseconds apart, for ten milliseconds each. -/
def lapsing : List (Timestamp × Request String) :=
  let digest : Digest := ⟨.replicate 32 0⟩
  [(.epoch, .set "a" "first" digest), (Timestamp.epoch.addMillis 8, .set "b" "second" digest)]

/-- What is asked when the first of them has expired; it is stored anew in between. -/
def asking : List (Timestamp × Request String) :=
  let now := Timestamp.epoch.addMillis 12
  let digest : Digest := ⟨.replicate 32 0⟩
  [(now, .has "a"), (now, .get "b" none), (now, .set "a" "third" digest), (now, .get "a" none),
    (now, .get "b" (some ⟨.replicate 32 1⟩)), (Timestamp.epoch.addMillis 30, .peek "a")]

theorem lapsing_sweep_unnoticed :
    let store : Store String := run { limits := { ttl := 10 }, weigh := String.length } lapsing
    let time := Timestamp.epoch.addMillis 12
    store.isStale time "a" = true ∧ (∀ entry ∈ asking, time ≤ entry.1) ∧ Spares store asking ∧
      told Request.replies (store.sweep time).2 asking = told Request.replies store asking ∧
      told Request.replies store asking =
        [.presence false, .value (some "second"), .value (some "third"), .value none, .value none] := by
  have stale : (run ({ limits := { ttl := 10 }, weigh := String.length } : Store String) lapsing).isStale
      (Timestamp.epoch.addMillis 12) "a" = true := by decide +kernel
  have after : ∀ entry ∈ asking, Timestamp.epoch.addMillis 12 ≤ entry.1 := by decide +kernel
  have spares : Spares (run ({ limits := { ttl := 10 }, weigh := String.length } : Store String) lapsing) asking := by
    decide +kernel
  have unnoticed := run_sweep_unnoticed { ttl := 10 } String.length lapsing (Timestamp.epoch.addMillis 12)
  exact ⟨stale, after, spares, (unnoticed.2.2.2 asking after spares).1, by decide +kernel⟩

end FreshDocs.Store
