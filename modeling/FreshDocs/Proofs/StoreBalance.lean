import FreshDocs.Proofs.StoreCounters

/-! The books of a store. An entry comes in by a `set` on a key that is free, and goes for one of five causes. Of these
the store counts two itself; together they account for everything that ever came in and is not there any more. -/

namespace FreshDocs.Store

variable {α : Type}

/-- Why an entry is not there any more. -/
inductive Cause where
  /-- It had to make room. -/
  | evicted
  /-- It had expired when it was read, or at a sweep. -/
  | expired
  /-- It had not expired, and was read with another digest. -/
  | mismatched
  | deleted
  | cleared
  deriving DecidableEq

theorem keys_of_cause (keys : List String) (cause : Cause) : (keys.map (·, cause)).map Prod.fst = keys := by
  rw [List.map_map]
  exact List.map_id keys

theorem count_of_cause (keys : List String) (cause other : Cause) :
    ((keys.map (·, cause)).map Prod.snd).count other = if cause = other then keys.length else 0 := by
  have causes : (keys.map (·, cause)).map Prod.snd = List.replicate keys.length cause := by
    rw [List.map_map]
    exact List.map_const' ..
  rw [causes, List.count_replicate]
  simp only [beq_iff_eq]

/-- Each departure is for one of the causes. -/
theorem length_causes (causes : List Cause) :
    causes.length = causes.count .evicted + causes.count .expired + causes.count .deleted + causes.count .mismatched +
      causes.count .cleared := by
  induction causes with
  | nil => rfl
  | cons cause rest ih =>
    rw [List.length_cons, ih]
    cases cause <;> simp <;> omega

section
variable [ToJson α]

/-- The key that a request brings in. To store something under a key that is taken brings in nothing. -/
def Request.arrivals (_ : Timestamp) (store : Store α) : Request α → List String
  | .set key _ _ => if (store.find? key).isSome then [] else [key]
  | .get .. | .has _ | .peek _ | .delete _ | .clear | .resize .. | .sweep => []

def Request.departures (now : Timestamp) (store : Store α) : Request α → List (String × Cause)
  | .set key value digest => ((Request.set key value digest).evicts now store).map (·, .evicted)
  | .resize maxSize maxEntries => ((Request.resize maxSize maxEntries).evicts now store).map (·, .evicted)
  | .get key digest =>
    match store.find? key with
    | none => []
    | some entry =>
      if store.isExpired now entry then [(key, .expired)]
      else if digest.any (· ≠ entry.digest) then [(key, .mismatched)]
      else []
  | .delete key => if (store.delete key).1 then [(key, .deleted)] else []
  | .clear => store.keys.map (·, .cleared)
  | .sweep => (store.expiredKeys now).map (·, .expired)
  | .has _ | .peek _ => []

/-! ### Keys -/

def occupied (store : Store α) (key : String) : List String :=
  if (store.find? key).isSome then [key] else []

section
variable {store : Store α} (valid : Coherent store)
include valid

omit [ToJson α] in
/-- A key stands among the keys once, or it is not there. -/
theorem Coherent.keys_perm (key : String) :
    store.keys.Perm (store.occupied key ++ (store.recency.without key).map (·.key)) := by
  have others : (store.recency.without key).map (·.key) = store.keys.filter fun other => !decide (other = key) := by
    rw [← valid.keys_items, Recency.without, List.filter_map]
    simp [Function.comp_def]
  have own : store.keys.filter (· = key) = store.occupied key := by
    rw [List.filter_eq, valid.keys_nodup.count, occupied]
    simp only [valid.mem_keys_iff]
    split <;> rfl
  rw [others, ← own]
  exact (List.filter_append_perm _ store.keys).symm

theorem Coherent.keys_apply (now : Timestamp) (request : Request α) :
    (request.apply now store).keys = (Recency.apply now store.recency (.ask request)).items.map (·.key) := by
  rw [← valid.recency_apply now (.ask request)]
  exact (valid.apply now request).keys_items.symm

/-- What is under a key is served when it is read, or it goes. -/
theorem Coherent.taken_or_served (now : Timestamp) (key : String) (digest : Option Digest) :
    store.occupied key =
      ((Request.get key digest).departures now store).map Prod.fst ++
        (store.recency.serve? now key digest).toList.map (·.key) := by
  rw [valid.serve?_items]
  simp only [Request.departures, occupied]
  cases store.find? key with
  | none => rfl
  | some entry =>
    have asked : digest.all (· = entry.digest) = !digest.any (· ≠ entry.digest) := by cases digest <;> simp
    simp only [Option.filter, asked]
    generalize store.isExpired now entry = expired
    generalize digest.any (· ≠ entry.digest) = mismatched
    cases expired <;> cases mismatched <;> rfl

/-- Whatever was there or comes in is taken away or is there afterwards. -/
theorem Coherent.balance_apply (now : Timestamp) (request : Request α) :
    (request.arrivals now store ++ store.keys).Perm
      ((request.departures now store).map Prod.fst ++ (request.apply now store).keys) := by
  have whole (limits : Limits) (items : List (Item α)) :
      (limits.victims items).map (·.key) ++ (limits.trim items).map (·.key) = items.map (·.key) := by
    rw [← List.map_append, limits.victims_append_trim]
  cases request with
  | has | peek => exact .refl _
  | set key value digest =>
    have parted := whole store.limits (store.recency.without key ++ [.new store.weigh now key value digest])
    have once : Request.arrivals now store (.set key value digest) ++ store.occupied key = [key] := by
      rw [Request.arrivals, occupied]
      split <;> rfl
    have before := (valid.keys_perm key).append_left (Request.arrivals now store (.set key value digest))
    rw [← List.append_assoc, once] at before
    rw [valid.keys_apply, Request.departures, keys_of_cause]
    exact (before.trans List.perm_append_comm).trans (.of_eq (List.map_append.symm.trans parted.symm))
  | get key digest =>
    have before := valid.keys_perm key
    rw [valid.taken_or_served now key digest, List.append_assoc] at before
    rw [valid.keys_apply]
    simp only [Recency.apply, Recency.get, List.map_append]
    exact before.trans (List.perm_append_comm.append_left _)
  | delete key =>
    have gone : ((Request.delete key).departures now store).map Prod.fst = store.occupied key := by
      rw [Request.departures, delete, occupied]
      split <;> rfl
    rw [valid.keys_apply, gone]
    exact valid.keys_perm key
  | clear =>
    rw [valid.keys_apply, Request.departures, keys_of_cause]
    exact .of_eq (List.append_nil _).symm
  | resize maxSize maxEntries =>
    rw [valid.keys_apply, Request.departures, keys_of_cause, ← valid.keys_items]
    exact .of_eq (whole _ _).symm
  | sweep =>
    have left : (Request.sweep.apply now store).keys = store.keys.filter (!store.isStale now ·) := valid.keys_sweep now
    rw [left, Request.departures, keys_of_cause]
    exact ((List.filter_append_perm _ _).symm).trans ((valid.expiredKeys_perm now).symm.append_right _)

/-- No request takes a key away twice, and what it takes away is not there any more. -/
theorem Coherent.departures_nodup (now : Timestamp) (request : Request α) :
    ((request.departures now store).map Prod.fst ++ (request.apply now store).keys).Nodup := by
  refine (valid.balance_apply now request).nodup ?_
  cases request with
  | set key value digest =>
    rw [Request.arrivals]
    split
    · exact valid.keys_nodup
    next free => exact List.nodup_cons.mpr ⟨fun listed => free (valid.mem_keys_iff.mp listed), valid.keys_nodup⟩
  | get | has | peek | delete | clear | resize | sweep => exact valid.keys_nodup

end

/-! ### Counters -/

theorem Losses.get (store : Store α) (now : Timestamp) (key : String) (digest : Option Digest) :
    let causes := ((Request.get key digest).departures now store).map Prod.snd
    Losses (causes.count .evicted) (causes.count .expired) store (store.get now key digest).2 := by
  have dropped := drop store key
  simp only [Request.departures, Store.get]
  cases store.find? key with
  | none => exact ⟨rfl, rfl⟩
  | some entry =>
    dsimp only
    generalize store.isExpired now entry = expired
    generalize digest.any (· ≠ entry.digest) = mismatched
    cases expired <;> cases mismatched
    · exact ⟨rfl, rfl⟩
    · exact ⟨dropped.evictions, dropped.expirations⟩
    all_goals exact ⟨dropped.evictions, congrArg (· + 1) dropped.expirations⟩

/-- An eviction is counted for each entry that makes room, and an expiration for each that goes because it has
expired. -/
theorem Coherent.losses_apply {store : Store α} (valid : Coherent store) (now : Timestamp) (request : Request α) :
    let causes := (request.departures now store).map Prod.snd
    Losses (causes.count .evicted) (causes.count .expired) store (request.apply now store) := by
  intro causes
  cases request with
  | has | peek => exact .refl store
  | set key value digest =>
    have put : Losses 0 0 store (store.stored now key value digest) :=
      ⟨(Losses.drop store key).evictions, (Losses.drop store key).expirations⟩
    have evicted := put.trans (valid.stored now key value digest).losses_evict
    rw [valid.items_stored, limits_stored, Nat.zero_add] at evicted
    simp only [causes, Request.departures, count_of_cause, Request.evicts, List.length_map]
    exact evicted
  | get key digest => exact .get store now key digest
  | delete key =>
    have none_counted : causes.count .evicted = 0 ∧ causes.count .expired = 0 := by
      simp only [causes, Request.departures]
      split <;> exact ⟨rfl, rfl⟩
    rw [none_counted.1, none_counted.2]
    exact .drop store key
  | clear =>
    simp only [causes, Request.departures, count_of_cause]
    exact ⟨rfl, rfl⟩
  | resize maxSize maxEntries =>
    have evicted := (valid.relimited (store.recency.resize maxSize maxEntries).limits).losses_evict
    simp only [causes, Request.departures, count_of_cause, Request.evicts, List.length_map]
    exact ⟨evicted.evictions, evicted.expirations⟩
  | sweep =>
    simp only [causes, Request.departures, count_of_cause]
    exact .sweep store now

/-! ### Runs -/

section
variable {store : Store α} (valid : Coherent store) (requests : List (Timestamp × Request α))
include valid

private theorem Coherent.balance_run :
    (told Request.arrivals store requests ++ store.keys).Perm
      ((told Request.departures store requests).map Prod.fst ++ (run store requests).keys) := by
  induction requests generalizing store with
  | nil => exact .refl _
  | cons entry rest ih =>
    obtain ⟨now, request⟩ := entry
    have here := valid.balance_apply now request
    have later := ih (valid.apply now request)
    rw [told, told, run, List.map_append, List.append_assoc, List.append_assoc]
    calc request.arrivals now store ++ (told Request.arrivals (request.apply now store) rest ++ store.keys)
      List.Perm _ (told Request.arrivals (request.apply now store) rest ++ (request.arrivals now store ++ store.keys)) :=
        List.perm_append_comm_assoc ..
      List.Perm _ (told Request.arrivals (request.apply now store) rest ++
          ((request.departures now store).map Prod.fst ++ (request.apply now store).keys)) := here.append_left _
      List.Perm _ ((request.departures now store).map Prod.fst ++
          (told Request.arrivals (request.apply now store) rest ++ (request.apply now store).keys)) :=
        List.perm_append_comm_assoc ..
      List.Perm _ _ := later.append_left _

private theorem Coherent.losses_run :
    let causes := (told Request.departures store requests).map Prod.snd
    Losses (causes.count .evicted) (causes.count .expired) store (run store requests) := by
  induction requests generalizing store with
  | nil => exact .refl store
  | cons entry rest ih =>
    obtain ⟨now, request⟩ := entry
    simp only [told, List.map_append, List.count_append]
    exact (valid.losses_apply now request).trans (ih (valid.apply now request))

end

/-- The books of a store balance after every run. Each `get` was a hit or a miss. Whatever was put under a free key is
there or was evicted, has expired, was read with another digest, was deleted or went when the store was cleared; it went
once, and for one of these causes only. -/
theorem run_balance (limits : Limits) (weigh : α → Nat) (requests : List (Timestamp × Request α)) :
    let store := run { limits, weigh } requests
    let stored := told Request.arrivals { limits, weigh } requests
    let gone := told Request.departures { limits, weigh } requests
    let lost (cause : Cause) := (gone.map Prod.snd).count cause
    store.hits + store.misses = requests.countP (·.2.isGet) ∧
    stored.length = store.length + store.evictions + store.expirations + lost .deleted + lost .mismatched +
      lost .cleared ∧
    (store.evictions = lost .evicted ∧ store.expirations = lost .expired) ∧
    stored.Perm (gone.map Prod.fst ++ store.keys) ∧
    ∀ now (request : Request α),
      ((request.departures now store).map Prod.fst ++ (request.apply now store).keys).Nodup := by
  intro store stored gone lost
  have start : Coherent ({ limits, weigh } : Store α) := .initial limits weigh
  have valid : Coherent store := (run_coherent_within_limits limits weigh requests).1
  have balance : stored.Perm (gone.map Prod.fst ++ store.keys) := by
    have whole := start.balance_run requests
    have empty : Store.keys ({ limits, weigh } : Store α) = [] := List.eq_nil_of_length_eq_zero start.length_keys
    rwa [empty, List.append_nil] at whole
  have evictions : store.evictions = lost .evicted := (start.losses_run requests).evictions.trans (Nat.zero_add _)
  have expirations : store.expirations = lost .expired := (start.losses_run requests).expirations.trans (Nat.zero_add _)
  have reads : store.hits + store.misses = requests.countP (·.2.isGet) :=
    (gets_run { limits, weigh } requests).trans (Nat.zero_add _)
  have causes : gone.length = lost .evicted + lost .expired + lost .deleted + lost .mismatched + lost .cleared := by
    rw [← List.length_map Prod.snd, length_causes]
  have sizes : stored.length = gone.length + store.length := by
    rw [balance.length_eq, List.length_append, List.length_map, valid.length_keys]
  refine ⟨reads, ?_, ⟨evictions, expirations⟩, balance, fun now request => valid.departures_nodup now request⟩
  omega

end

/-- What is read too late and with another digest has expired, and is not counted as a mismatch besides. -/
example :
    let stored : Request String := .set "a" "text" (some ⟨.replicate 32 0⟩)
    let read : Request String := .get "a" (some ⟨.replicate 32 1⟩)
    told Request.departures { limits := { ttl := 10 }, weigh := String.length }
      [(.epoch, stored), (Timestamp.epoch.addMillis 12, read)] = [("a", .expired)] := by
  decide +kernel

end FreshDocs.Store
