import FreshDocs.Proofs.HubConflicts
import FreshDocs.Proofs.HubLedger

/-! A hub misses no conflict and invents none, as long as its clock never goes back and revisions
are stamped with the time at which they are handed in. It compares a new revision with the queue
and with what was last passed on; that is enough, because whatever these have displaced is either
older still or was made on the same side. -/

namespace FreshDocs.Timestamp

theorem le_trans {a b c : Timestamp} (first : a ≤ b) (second : b ≤ c) : a ≤ c :=
  Int.le_trans first second

/-- An earlier time is further from a later one. -/
theorem gapMillis_anti {a b c : Timestamp} (first : a ≤ b) (second : b ≤ c) : b.gapMillis c ≤ a.gapMillis c := by
  change a.toNanos ≤ b.toNanos at first
  change b.toNanos ≤ c.toNanos at second
  apply Nat.div_le_div_right
  simp only [nanosSince]
  omega

/-- A later time is further from an earlier one. -/
theorem gapMillis_mono {a b c : Timestamp} (first : a ≤ b) (second : b ≤ c) : a.gapMillis b ≤ a.gapMillis c := by
  change a.toNanos ≤ b.toNanos at first
  change b.toNanos ≤ c.toNanos at second
  apply Nat.div_le_div_right
  simp only [nanosSince]
  omega

private theorem gapMillis_comm (a b : Timestamp) : a.gapMillis b = b.gapMillis a := by
  simp only [gapMillis, nanosSince]
  omega

end FreshDocs.Timestamp

namespace FreshDocs.Sync

namespace Hub
open Std

/-! ### The ledger -/

/-- A revision was accepted since the last conflict of its document was settled. -/
def Open (ledger : List Entry) (revision : Revision) : Prop :=
  ∃ earlier later, ledger = earlier ++ .accepted revision :: later ∧ .settled revision.path ∉ later

def Out (ledger : List Entry) (revision : Revision) : Prop :=
  ∃ earlier later, ledger = earlier ++ .accepted revision :: later ∧ .settled revision.path ∉ later ∧
    ∃ batch, .passedOn batch ∈ later ∧ revision ∈ batch

/-- A revision that was accepted since the last conflict of its document was settled, and that still
waits in the queue or was passed on. -/
def Standing (hub : Hub) (ledger : List Entry) (revision : Revision) : Prop :=
  ∃ earlier later, ledger = earlier ++ .accepted revision :: later ∧ .settled revision.path ∉ later ∧
    (revision ∈ hub.queue ∨ ∃ batch, .passedOn batch ∈ later ∧ revision ∈ batch)

theorem standing_iff {hub : Hub} {ledger : List Entry} {revision : Revision} :
    Standing hub ledger revision ↔ Open ledger revision ∧ revision ∈ hub.queue ∨ Out ledger revision := by
  constructor
  · rintro ⟨earlier, later, split, unsettled, waits | passed⟩
    · exact .inl ⟨⟨earlier, later, split, unsettled⟩, waits⟩
    · exact .inr ⟨earlier, later, split, unsettled, passed⟩
  · rintro (⟨⟨earlier, later, split, unsettled⟩, waits⟩ | ⟨earlier, later, split, unsettled, passed⟩)
    · exact ⟨earlier, later, split, unsettled, .inl waits⟩
    · exact ⟨earlier, later, split, unsettled, .inr passed⟩

theorem Out.open {ledger : List Entry} {revision : Revision} (out : Out ledger revision) :
    Open ledger revision := by
  obtain ⟨earlier, later, split, unsettled, -⟩ := out
  exact ⟨earlier, later, split, unsettled⟩

/-- A place in a ledger with one more entry is that of the new entry or was there before. -/
theorem split_snoc {ledger earlier later : List Entry} {entry first : Entry}
    (split : ledger ++ [entry] = earlier ++ first :: later) :
    later = [] ∧ first = entry ∨ ∃ rest, later = rest ++ [entry] ∧ ledger = earlier ++ first :: rest := by
  rcases List.eq_nil_or_concat later with rfl | ⟨rest, last, rfl⟩
  · have same := List.append_inj_right' split rfl
    exact .inl ⟨rfl, (List.singleton_inj.mp same).symm⟩
  · rw [List.concat_eq_append, ← List.cons_append, ← List.append_assoc] at split
    obtain ⟨front, back⟩ := List.append_inj' split rfl
    cases back
    exact .inr ⟨rest, by simp, front⟩

private theorem open_snoc {ledger : List Entry} {entry : Entry} {revision : Revision} :
    Open (ledger ++ [entry]) revision ↔
      entry = .accepted revision ∨ entry ≠ .settled revision.path ∧ Open ledger revision := by
  constructor
  · rintro ⟨earlier, later, split, unsettled⟩
    rcases split_snoc split with ⟨-, same⟩ | ⟨rest, rfl, before⟩
    · exact .inl same.symm
    · simp only [List.mem_append, List.mem_singleton, not_or] at unsettled
      exact .inr ⟨Ne.symm unsettled.2, earlier, rest, before, unsettled.1⟩
  · rintro (rfl | ⟨other, earlier, later, rfl, unsettled⟩)
    · exact ⟨ledger, [], rfl, List.not_mem_nil⟩
    · refine ⟨earlier, later ++ [entry], by simp, ?_⟩
      simp only [List.mem_append, List.mem_singleton, not_or]
      exact ⟨unsettled, Ne.symm other⟩

private theorem out_snoc {ledger : List Entry} {entry : Entry} {revision : Revision} :
    Out (ledger ++ [entry]) revision ↔
      entry ≠ .settled revision.path ∧
        (Out ledger revision ∨ Open ledger revision ∧ ∃ batch, entry = .passedOn batch ∧ revision ∈ batch) := by
  constructor
  · rintro ⟨earlier, later, split, unsettled, batch, passed, member⟩
    rcases split_snoc split with ⟨rfl, -⟩ | ⟨rest, rfl, before⟩
    · cases passed
    · simp only [List.mem_append, List.mem_singleton, not_or] at unsettled passed
      refine ⟨Ne.symm unsettled.2, ?_⟩
      rcases passed with old | new
      · exact .inl ⟨earlier, rest, before, unsettled.1, batch, old, member⟩
      · exact .inr ⟨⟨earlier, rest, before, unsettled.1⟩, batch, new.symm, member⟩
  · have extended {later : List Entry} (other : entry ≠ .settled revision.path)
        (unsettled : .settled revision.path ∉ later) : .settled revision.path ∉ later ++ [entry] := by
      simp only [List.mem_append, List.mem_singleton, not_or]
      exact ⟨unsettled, Ne.symm other⟩
    rintro ⟨other, ⟨earlier, later, rfl, unsettled, batch, passed, member⟩ |
      ⟨⟨earlier, later, rfl, unsettled⟩, batch, rfl, member⟩⟩
    · exact ⟨earlier, later ++ [entry], by simp, extended other unsettled, batch,
        List.mem_append_left _ passed, member⟩
    · exact ⟨earlier, later ++ [.passedOn batch], by simp, extended other unsettled, batch,
        List.mem_append_right _ List.mem_cons_self, member⟩

section
variable {ledger : List Entry} {revision : Revision}

theorem open_accepted {new : Revision} :
    Open (ledger ++ [.accepted new]) revision ↔ revision = new ∨ Open ledger revision := by
  simp [open_snoc, eq_comm]

theorem open_settled {path : String} :
    Open (ledger ++ [.settled path]) revision ↔ revision.path ≠ path ∧ Open ledger revision := by
  simp [open_snoc, eq_comm]

private theorem open_passedOn {batch : List Revision} :
    Open (ledger ++ [.passedOn batch]) revision ↔ Open ledger revision := by
  simp [open_snoc]

theorem out_accepted {new : Revision} : Out (ledger ++ [.accepted new]) revision ↔ Out ledger revision := by
  simp [out_snoc]

theorem out_settled {path : String} :
    Out (ledger ++ [.settled path]) revision ↔ revision.path ≠ path ∧ Out ledger revision := by
  simp [out_snoc, eq_comm]

theorem out_passedOn {batch : List Revision} :
    Out (ledger ++ [.passedOn batch]) revision ↔ Out ledger revision ∨ Open ledger revision ∧ revision ∈ batch := by
  simp [out_snoc]

end

/-! ### What a hub keeps of the ledger -/

/-- Two revisions that would make a conflict if one came when the other stands. -/
def Compete (window : Nat) (first second : Revision) : Prop :=
  first.path = second.path ∧ first.origin = second.origin.other ∧
    first.timestamp.gapMillis second.timestamp ≤ window

theorem Compete.symm {window : Nat} {first second : Revision} (compete : Compete window first second) :
    Compete window second first := by
  obtain ⟨path, origin, near⟩ := compete
  refine ⟨path.symm, ?_, Timestamp.gapMillis_comm .. ▸ near⟩
  rw [origin, Origin.other_other]

/-- How a hub stands to its ledger at a point in time. No two standing revisions compete, and
a document without a conflict is remembered by a revision no older than any that was passed on
and could still make one. -/
structure Watches (hub : Hub) (ledger : List Entry) (now : Timestamp) : Prop where
  indexed : ∀ (id : Uuid) (conflict : Conflict), hub.conflicts[id]? = some conflict →
    hub.conflictOf[conflict.path]? = some id
  queue : ∀ revision ∈ hub.queue, hub.conflictOf[revision.path]? = none ∧ Open ledger revision
  recent : ∀ (path : String) (revision : Revision), hub.recent[path]? = some revision →
    hub.conflictOf[path]? = none ∧ revision.path = path ∧ Out ledger revision
  past : ∀ revision, Open ledger revision → revision.timestamp ≤ now
  sorted : hub.queue.Pairwise (·.timestamp ≤ ·.timestamp)
  behind : ∀ passed, Out ledger passed → ∀ revision ∈ hub.queue, passed.timestamp ≤ revision.timestamp
  apart : ∀ first second, Standing hub ledger first → Standing hub ledger second →
    ¬Compete hub.settings.conflictWindow first second
  covered : ∀ passed, Out ledger passed → hub.conflictOf[passed.path]? = none →
    passed.timestamp.gapMillis now ≤ hub.settings.conflictWindow →
    ∃ revision, hub.recent[passed.path]? = some revision ∧ revision.origin = passed.origin ∧
      passed.timestamp ≤ revision.timestamp

theorem Watches.congr {before after : Hub} {ledger : List Entry} {now : Timestamp}
    (watches : Watches before ledger now) (same : after.docket = before.docket) : Watches after ledger now := by
  simp only [docket, Docket.mk.injEq] at same
  obtain ⟨settings, queue, conflicts, conflictOf, recent, -, -, -, -, -⟩ := same
  constructor
  · rw [conflicts, conflictOf]; exact watches.indexed
  · rw [queue, conflictOf]; exact watches.queue
  · rw [recent, conflictOf]; exact watches.recent
  · exact watches.past
  · rw [queue]; exact watches.sorted
  · rw [queue]; exact watches.behind
  · simp only [Standing, queue, settings]; exact watches.apart
  · rw [recent, conflictOf, settings]; exact watches.covered

theorem Watches.initial (settings : Settings) (ids : Uuid.Supply) (now : Timestamp) :
    Watches { settings, ids } [] now := by
  have never (revision : Revision) : ¬Open [] revision := by
    rintro ⟨earlier, later, split, -⟩
    simp at split
  constructor
  case past => exact fun revision opened => (never revision opened).elim
  case apart =>
    intro first second standing
    rcases standing_iff.mp standing with ⟨opened, -⟩ | out
    · exact (never first opened).elim
    · exact (never first out.open).elim
  case covered => exact fun passed out => (never passed out.open).elim
  all_goals simp

section
variable {hub : Hub} {ledger : List Entry} {before now : Timestamp}

theorem Watches.later (watches : Watches hub ledger before) (order : before ≤ now) : Watches hub ledger now := by
  refine { watches with past := ?_, covered := ?_ }
  · exact fun revision opened => Timestamp.le_trans (watches.past revision opened) order
  · intro passed out free near
    exact watches.covered passed out free
      (Nat.le_trans (Timestamp.gapMillis_mono (watches.past passed out.open) order) near)

theorem Watches.prune (watches : Watches hub ledger now) : Watches (hub.pruneRecent now) ledger now := by
  refine ⟨watches.indexed, watches.queue, ?_, watches.past, watches.sorted, watches.behind, watches.apart, ?_⟩
  · intro path revision remembered
    simp only [pruneRecent, ExtTreeMap.getElem?_filter'] at remembered
    exact watches.recent path revision (Option.filter_eq_some_iff.mp remembered).1
  · intro passed out free near
    obtain ⟨revision, remembered, origin, order⟩ := watches.covered passed out free near
    have opened := (watches.recent passed.path revision remembered).2.2.open
    refine ⟨revision, ?_, origin, order⟩
    simp only [pruneRecent, ExtTreeMap.getElem?_filter', remembered, Option.filter_some, decide_eq_true_eq]
    rw [if_pos]
    exact Nat.le_trans (Timestamp.gapMillis_anti order (watches.past revision opened)) near

theorem Watches.absorb (watches : Watches hub ledger now) (id : Uuid) (revision : Revision) :
    Watches { hub with conflicts := hub.conflicts.modify id (·.absorb revision) } ledger now := by
  refine { watches with indexed := ?_ }
  intro other conflict present
  simp only [ExtTreeMap.getElem?_modify] at present
  split at present
  next same =>
    obtain ⟨old, there, rfl⟩ := Option.map_eq_some_iff.mp present
    rw [(absorb_path old revision).1, ← LawfulEqOrd.eq_of_compare same]
    exact watches.indexed _ old there
  next => exact watches.indexed other conflict present

theorem Standing.mono {after : Hub} {revision : Revision} (standing : Standing after ledger revision)
    (kept : after.queue ⊆ hub.queue) : Standing hub ledger revision := by
  obtain ⟨earlier, later, split, unsettled, waits | passed⟩ := standing
  · exact ⟨earlier, later, split, unsettled, .inl (kept waits)⟩
  · exact ⟨earlier, later, split, unsettled, .inr passed⟩

theorem Watches.raise {conflict : Conflict} (watches : Watches hub ledger now)
    (free : hub.conflictOf[conflict.path]? = none) : Watches (hub.raise conflict) ledger now := by
  have shorter : (hub.raise conflict).queue.Sublist hub.queue := List.filter_sublist
  refine ⟨?_, ?_, ?_, watches.past, watches.sorted.sublist shorter, ?_, ?_, ?_⟩
  · intro id held present
    simp only [Hub.raise, ExtTreeMap.getElem?_insert] at present ⊢
    split at present
    next same =>
      cases present
      rw [if_pos ReflOrd.compare_self, LawfulEqOrd.eq_of_compare same]
    next =>
      have placed := watches.indexed id held present
      rw [if_neg, placed]
      intro same
      rw [LawfulEqOrd.eq_of_compare same, placed] at free
      cases free
  · intro revision member
    obtain ⟨queued, elsewhere⟩ := List.mem_filter.mp member
    have elsewhere : revision.path ≠ conflict.path := by simpa using elsewhere
    have kept := watches.queue revision queued
    exact ⟨by simpa [Hub.raise, ExtTreeMap.getElem?_insert, elsewhere.symm] using kept.1, kept.2⟩
  · intro path revision remembered
    simp only [Hub.raise, ExtTreeMap.getElem?_erase, Std.compare_eq_iff_eq] at remembered
    split at remembered
    next => cases remembered
    next elsewhere =>
      have kept := watches.recent path revision remembered
      exact ⟨by simpa [Hub.raise, ExtTreeMap.getElem?_insert, elsewhere] using kept.1, kept.2⟩
  · exact fun passed out revision member => watches.behind passed out revision (shorter.subset member)
  · intro first second one two
    exact watches.apart first second (one.mono shorter.subset) (two.mono shorter.subset)
  · intro passed out unheld near
    simp only [Hub.raise, ExtTreeMap.getElem?_insert, ExtTreeMap.getElem?_erase] at unheld ⊢
    split at unheld
    next => cases unheld
    next elsewhere =>
      rw [if_neg elsewhere]
      exact watches.covered passed out unheld near

/-- A queue may lose revisions. -/
theorem Watches.shorten {queue : List Revision} (watches : Watches hub ledger now) (counters : Counters)
    (shorter : queue.Sublist hub.queue) : Watches { hub with queue, counters } ledger now := by
  refine ⟨watches.indexed, ?_, watches.recent, watches.past, watches.sorted.sublist shorter, ?_, ?_, watches.covered⟩
  · exact fun revision member => watches.queue revision (shorter.subset member)
  · exact fun passed out revision member => watches.behind passed out revision (shorter.subset member)
  · intro first second one two
    exact watches.apart first second (one.mono shorter.subset) (two.mono shorter.subset)

/-- A revision that competes with none that stands may join them. -/
theorem Watches.append {revision : Revision} (watches : Watches hub ledger now)
    (free : hub.conflictOf[revision.path]? = none) (stamped : revision.timestamp = now)
    (clear : ∀ other, Standing hub ledger other → ¬Compete hub.settings.conflictWindow other revision) :
    Watches { hub with queue := hub.queue ++ [revision] } (ledger ++ [.accepted revision]) now := by
  have standing {other : Revision} (stands : Standing { hub with queue := hub.queue ++ [revision] }
      (ledger ++ [.accepted revision]) other) : other = revision ∨ Standing hub ledger other := by
    rcases standing_iff.mp stands with ⟨accepted, waits⟩ | out
    · rcases open_accepted.mp accepted with rfl | old
      · exact .inl rfl
      · rcases List.mem_append.mp waits with queued | new
        · exact .inr (standing_iff.mpr (.inl ⟨old, queued⟩))
        · exact .inl (List.mem_singleton.mp new)
    · exact .inr (standing_iff.mpr (.inr (out_accepted.mp out)))
  refine ⟨watches.indexed, ?_, ?_, ?_, ?_, ?_, ?_, ?_⟩
  · intro other member
    rcases List.mem_append.mp member with queued | new
    · exact ⟨(watches.queue other queued).1, open_accepted.mpr (.inr (watches.queue other queued).2)⟩
    · cases List.mem_singleton.mp new
      exact ⟨free, open_accepted.mpr (.inl rfl)⟩
  · intro path other remembered
    obtain ⟨unheld, path, out⟩ := watches.recent path other remembered
    exact ⟨unheld, path, out_accepted.mpr out⟩
  · intro other accepted
    rcases open_accepted.mp accepted with rfl | old
    · exact stamped ▸ Int.le_refl _
    · exact watches.past other old
  · refine List.pairwise_append.mpr ⟨watches.sorted, List.pairwise_singleton _ _, ?_⟩
    intro other queued last new
    rw [List.mem_singleton.mp new, stamped]
    exact watches.past other (watches.queue other queued).2
  · intro passed out other member
    rw [out_accepted] at out
    rcases List.mem_append.mp member with queued | new
    · exact watches.behind passed out other queued
    · rw [List.mem_singleton.mp new, stamped]
      exact watches.past passed out.open
  · intro first second one two compete
    rcases standing one with rfl | old
    · rcases standing two with rfl | other
      · exact Origin.ne_other _ compete.2.1
      · exact clear second other compete.symm
    · rcases standing two with rfl | other
      · exact clear first old compete
      · exact watches.apart first second old other compete
  · intro passed out
    exact watches.covered passed (out_accepted.mp out)

theorem Watches.enqueue {revision : Revision} (watches : Watches hub ledger now)
    (free : hub.conflictOf[revision.path]? = none) (stamped : revision.timestamp = now)
    (clear : ∀ other, Standing hub ledger other → ¬Compete hub.settings.conflictWindow other revision) :
    Watches (hub.enqueue revision).2 (ledger ++ [.accepted revision]) now := by
  have appended := watches.append free stamped clear
  rcases enqueue_cases hub revision with ⟨-, queued⟩ | ⟨oldest, rest, -, shape, queued⟩
  · rw [queued]
    exact appended
  · rw [queued]
    have shorter : rest.Sublist (hub.queue ++ [revision]) := shape ▸ List.sublist_cons_self oldest rest
    have shortened := appended.shorten { hub.counters with dropped := hub.counters.dropped + 1 } shorter
    exact shortened

/-- Settling the conflict of a document starts its history anew. -/
theorem Watches.settle {id : Uuid} {conflict : Conflict} (watches : Watches hub ledger now)
    (known : hub.conflicts[id]? = some conflict) :
    Watches (hub.settle id conflict.path) (ledger ++ [.settled conflict.path]) now := by
  have held := watches.indexed id conflict known
  have standing {other : Revision}
      (stands : Standing (hub.settle id conflict.path) (ledger ++ [.settled conflict.path]) other) :
      Standing hub ledger other := by
    rcases standing_iff.mp stands with ⟨accepted, waits⟩ | passed
    · exact standing_iff.mpr (.inl ⟨(open_settled.mp accepted).2, waits⟩)
    · exact standing_iff.mpr (.inr (out_settled.mp passed).2)
  have elsewhere {path : String} (free : hub.conflictOf[path]? = none) : path ≠ conflict.path := by
    rintro rfl
    rw [held] at free
    cases free
  refine ⟨?_, ?_, ?_, ?_, watches.sorted, ?_, ?_, ?_⟩
  · intro other there present
    simp only [Hub.settle, ExtTreeMap.getElem?_erase] at present ⊢
    split at present
    next => cases present
    next different =>
      have placed := watches.indexed other there present
      rw [if_neg, placed]
      intro same
      rw [← LawfulEqOrd.eq_of_compare same, held] at placed
      cases placed
      exact different ReflOrd.compare_self
  · intro revision member
    obtain ⟨free, accepted⟩ := watches.queue revision member
    refine ⟨?_, open_settled.mpr ⟨elsewhere free, accepted⟩⟩
    simp only [Hub.settle, ExtTreeMap.getElem?_erase, free, ite_self]
  · intro path revision remembered
    obtain ⟨free, rfl, passed⟩ := watches.recent path revision remembered
    refine ⟨?_, rfl, out_settled.mpr ⟨elsewhere free, passed⟩⟩
    simp only [Hub.settle, ExtTreeMap.getElem?_erase, free, ite_self]
  · exact fun revision accepted => watches.past revision (open_settled.mp accepted).2
  · exact fun passed gone => watches.behind passed (out_settled.mp gone).2
  · exact fun first second one two => watches.apart first second (standing one) (standing two)
  · intro passed gone free near
    obtain ⟨other, gone⟩ := out_settled.mp gone
    simp only [Hub.settle, ExtTreeMap.getElem?_erase] at free
    rw [if_neg] at free
    · exact watches.covered passed gone free near
    · exact fun same => other (LawfulEqOrd.eq_of_compare same).symm

/-- What is passed on becomes the memory of its documents. -/
theorem Watches.flush (watches : Watches hub ledger now) (counters : Counters) :
    Watches { hub with
      queue := []
      recent := (compact hub.queue).foldl (fun recent revision => recent.insert revision.path revision) hub.recent
      counters } (ledger ++ [.passedOn (compact hub.queue)]) now := by
  have standing {other : Revision} (gone : Out (ledger ++ [.passedOn (compact hub.queue)]) other) :
      Standing hub ledger other := by
    rcases out_passedOn.mp gone with old | ⟨accepted, passed⟩
    · exact standing_iff.mpr (.inr old)
    · exact standing_iff.mpr (.inl ⟨accepted, compact_subset passed⟩)
  refine ⟨watches.indexed, ?_, ?_, ?_, List.Pairwise.nil, ?_, ?_, ?_⟩
  · intro revision member
    cases member
  · intro path revision remembered
    simp only [remembered_compact] at remembered
    cases found : latest? (·.path = path) hub.queue with
    | none =>
      rw [found, Option.none_or] at remembered
      obtain ⟨free, same, passed⟩ := watches.recent path revision remembered
      exact ⟨free, same, out_passedOn.mpr (.inl passed)⟩
    | some last =>
      rw [found, Option.some_or] at remembered
      cases remembered
      obtain ⟨member, same⟩ := latest?_some found
      obtain rfl := of_decide_eq_true same
      obtain ⟨free, accepted⟩ := watches.queue revision member
      exact ⟨free, rfl, out_passedOn.mpr (.inr ⟨accepted, mem_compact.mpr found⟩)⟩
  · exact fun revision accepted => watches.past revision (open_passedOn.mp accepted)
  · intro passed gone revision member
    cases member
  · intro first second one two
    have gone {other : Revision} (stands : Standing { hub with
        queue := []
        recent := (compact hub.queue).foldl (fun recent revision => recent.insert revision.path revision) hub.recent
        counters } (ledger ++ [.passedOn (compact hub.queue)]) other) :
        Out (ledger ++ [.passedOn (compact hub.queue)]) other := by
      rcases standing_iff.mp stands with ⟨-, waits⟩ | gone
      · cases waits
      · exact gone
    exact watches.apart first second (standing (gone one)) (standing (gone two))
  · intro passed gone free near
    simp only [remembered_compact]
    cases found : latest? (·.path = passed.path) hub.queue with
    | none =>
      rw [Option.none_or]
      rcases out_passedOn.mp gone with old | ⟨-, member⟩
      · exact watches.covered passed old free near
      · rw [mem_compact.mp member] at found
        cases found
    | some last =>
      -- The new memory is the last of its document in the queue. What was passed on before is
      -- older, and were it of the other side, the two would have made a conflict.
      refine ⟨last, rfl, ?_⟩
      rcases out_passedOn.mp gone with old | ⟨-, member⟩
      · obtain ⟨queued, same⟩ := latest?_some found
        have order := watches.behind passed old last queued
        have opened := (watches.queue last queued).2
        refine ⟨?_, order⟩
        rcases Origin.eq_or_other last.origin passed.origin with alike | other
        · exact alike
        · refine (watches.apart last passed (standing_iff.mpr (.inl ⟨opened, queued⟩))
            (standing_iff.mpr (.inr old)) ⟨of_decide_eq_true same, other, ?_⟩).elim
          rw [Timestamp.gapMillis_comm]
          exact Nat.le_trans (Timestamp.gapMillis_mono order (watches.past last opened)) near
      · rw [mem_compact.mp member] at found
        cases found
        exact ⟨rfl, Int.le_refl _⟩

end

/-! ### Detection -/

theorem competes_iff {window : Nat} {revision candidate : Revision} :
    competes window revision candidate = true ↔ Compete window candidate revision := by
  simp only [competes, Compete, Bool.and_eq_true, decide_eq_true_eq, and_assoc]

/-- Whatever competes makes a conflict. -/
theorem raised?_isSome {hub : Hub} {now : Timestamp} {revision : Revision} :
    (hub.raised? now revision).isSome = ((hub.pruneRecent now).competing? revision).isSome := by
  cases found : (hub.pruneRecent now).competing? revision with
  | none => simp [raised?, found]
  | some candidate =>
    obtain ⟨-, origin, -⟩ := competes_iff.mp (competing?_cases found).1
    rw [raised?, found, Option.bind_some, Conflict.between?, origin]
    cases revision.origin <;> rfl

/-- A hub that watches its ledger finds exactly what competes. -/
theorem Watches.raises {hub : Hub} {ledger : List Entry} {now : Timestamp} {revision : Revision}
    (watches : Watches hub ledger now) (free : hub.conflictOf[revision.path]? = none)
    (stamped : revision.timestamp = now) :
    (hub.raised? now revision).isSome = true ↔
      ∃ other, Standing hub ledger other ∧ Compete hub.settings.conflictWindow other revision := by
  rw [raised?_isSome]
  constructor
  · intro found
    obtain ⟨candidate, found⟩ := Option.isSome_iff_exists.mp found
    obtain ⟨compete, queued | ⟨remembered, -⟩⟩ := competing?_cases found
    · exact ⟨candidate, standing_iff.mpr (.inl ⟨(watches.queue candidate queued).2, queued⟩),
        competes_iff.mp compete⟩
    · exact ⟨candidate, standing_iff.mpr (.inr (watches.prune.recent _ candidate remembered).2.2),
        competes_iff.mp compete⟩
  · rintro ⟨other, standing, compete⟩
    rcases standing_iff.mp standing with ⟨-, queued⟩ | out
    · exact competing?_isSome (.inl queued) (competes_iff.mpr compete)
    · -- The memory of the document stands in for what was passed on.
      obtain ⟨path, origin, near⟩ := compete
      rw [stamped] at near
      obtain ⟨last, remembered, alike, order⟩ := watches.prune.covered other out (path ▸ free) near
      have opened := (watches.prune.recent _ last remembered).2.2.open
      refine competing?_isSome (.inr (path ▸ remembered)) (competes_iff.mpr ⟨?_, alike.trans origin, ?_⟩)
      · exact (watches.prune.recent _ last remembered).2.1.trans path
      · rw [stamped]
        exact Nat.le_trans (Timestamp.gapMillis_anti order (watches.past last opened)) near

/-! ### Requests -/

/-- A request keeps the watch when it does not come before the last one and hands in nothing
that is stamped with another time. -/
theorem Watches.apply {hub : Hub} {ledger : List Entry} {now : Timestamp} {request : Request}
    (watches : Watches hub ledger now)
    (stamped : ∀ revision, request = .submit revision → revision.timestamp = now) :
    Watches (request.apply now hub) (ledger ++ request.entries now hub) now := by
  have happened := change now hub request
  generalize after : (request.apply now hub).docket = docket at happened
  cases happened with
  | idle quiet still =>
    rw [quiet, List.append_nil]
    exact watches.congr after
  | absorbed held =>
    rw [entries_absorbed held, List.append_nil]
    exact (watches.absorb _ _).congr after
  | raised free found =>
    rw [entries_raised free found, List.append_nil]
    have pruned := watches.prune
    refine Watches.congr (Watches.raise ?_ ((raised?_shape found).1 ▸ free)) after
    exact ⟨pruned.indexed, pruned.queue, pruned.recent, pruned.past, pruned.sorted, pruned.behind,
      pruned.apart, pruned.covered⟩
  | @queued revision free clear =>
    rw [entries_queued free clear]
    refine (watches.prune.enqueue free (stamped revision rfl) ?_).congr after
    intro other standing compete
    have found := (watches.raises free (stamped revision rfl)).mpr ⟨other, standing, compete⟩
    rw [clear] at found
    cases found
  | @settled id resolution conflict known =>
    rw [entries_settled resolution known, List.append_cons]
    refine Watches.congr (Watches.enqueue (watches.settle known) ?_ (settle_timestamp ..) ?_) after
    · rw [settle_path]
      exact ExtTreeMap.getElem?_erase_self
    · -- After the conflict was settled nothing of its document stands.
      intro other standing compete
      obtain ⟨earlier, later, split, unsettled, -⟩ := standing
      have opened := open_settled.mp ⟨earlier, later, split, unsettled⟩
      exact opened.1 (compete.1.trans (settle_path ..))
  | flushed =>
    rw [Request.entries]
    exact (watches.flush _).congr after

theorem run_watches {hub : Hub} {older : List Entry} {before now : Timestamp}
    {requests : List (Timestamp × Request)} (watches : Watches hub older before)
    (order : (before :: (requests.map Prod.fst ++ [now])).Pairwise (· ≤ ·))
    (stamped : ∀ time revision, (time, .submit revision) ∈ requests → revision.timestamp = time) :
    Watches (run hub requests) (older ++ ledger hub requests) now := by
  induction requests generalizing hub older before with
  | nil =>
    rw [ledger, List.append_nil]
    exact watches.later (List.rel_of_pairwise_cons order List.mem_cons_self)
  | cons entry rest ih =>
    obtain ⟨time, request⟩ := entry
    have reached := watches.later (List.rel_of_pairwise_cons order List.mem_cons_self)
    have kept : Watches (request.apply time hub) (older ++ request.entries time hub) time :=
      reached.apply fun revision same => stamped time revision (same ▸ List.mem_cons_self)
    rw [run, ledger, ← List.append_assoc]
    exact ih kept order.of_cons fun time revision member => stamped time revision (List.mem_cons_of_mem _ member)

/-- Conflict detection is exact. While the clock does not go back and revisions are stamped with the
time at which they are handed in, a revision for a document without a pending conflict makes one
if and only if it competes with a revision that was accepted since the last conflict of the document
was settled, and that is still queued or was passed on. -/
theorem submit_raises_iff_standing (settings : Settings) (ids : Uuid.Supply)
    (requests : List (Timestamp × Request)) (now : Timestamp) (revision : Revision)
    (steady : (requests.map Prod.fst ++ [now]).Pairwise (· ≤ ·))
    (stamped : ∀ time handed, (time, .submit handed) ∈ requests ++ [(now, .submit revision)] →
      handed.timestamp = time)
    (free : (run { settings, ids } requests).conflictOf[revision.path]? = none) :
    (∃ id, ((run { settings, ids } requests).submit now revision).1 = .conflict id) ↔
      ∃ other, Standing (run { settings, ids } requests) (ledger { settings, ids } requests) other ∧
        other.path = revision.path ∧ other.origin = revision.origin.other ∧
        other.timestamp.gapMillis revision.timestamp ≤ settings.conflictWindow := by
  have watches : Watches (run { settings, ids } requests) (ledger { settings, ids } requests) now := by
    cases requests with
    | nil => exact .initial settings ids now
    | cons entry rest =>
      -- Nothing has happened yet when the first request comes, so its own time may stand before it.
      have order : (entry.1 :: ((entry :: rest).map Prod.fst ++ [now])).Pairwise (· ≤ ·) := by
        refine List.pairwise_cons.mpr ⟨fun time member => ?_, steady⟩
        rcases List.mem_cons.mp member with rfl | later
        · exact Int.le_refl _
        · exact List.rel_of_pairwise_cons steady later
      refine run_watches (.initial settings ids entry.1) order fun time handed member => ?_
      exact stamped time handed (List.mem_append_left _ member)
  have now_stamped := stamped now revision (List.mem_append_right _ List.mem_cons_self)
  rw [outcome_conflict_iff free, watches.raises free now_stamped, settings_run]
  rfl

/-- A conflict is settled by a merge, which is passed on; generated content that comes right after it
competes with the merge. -/
theorem regenerated_raises_iff_standing :
    let now : Timestamp := .ofNanos 4
    let generated := Revision.make (.ofNat 1) (.ofNanos 0) .file "guide.md" "generated" .auto
    let written := Revision.make (.ofNat 2) (.ofNanos 1) .file "guide.md" "by hand" .manual
    let again := Revision.make (.ofNat 3) now .file "guide.md" "generated again" .auto
    let ids : Uuid.Supply := { space := 1 }
    let requests : List (Timestamp × Request) :=
      [(.ofNanos 0, .submit generated), (.ofNanos 1, .submit written),
        (.ofNanos 2, .resolve (ids.nth 1) (.merge "merged")), (.ofNanos 3, .flush)]
    let hub := run { settings := {}, ids } requests
    (requests.map Prod.fst ++ [now]).Pairwise (· ≤ ·) ∧
      (∀ time revision, (time, .submit revision) ∈ requests ++ [(now, .submit again)] →
        revision.timestamp = time) ∧
      hub.conflictOf[again.path]? = none ∧
      ((∃ id, (hub.submit now again).1 = .conflict id) ↔
        ∃ other, Standing hub (ledger { settings := {}, ids } requests) other ∧ other.path = again.path ∧
          other.origin = again.origin.other ∧ other.timestamp.gapMillis again.timestamp ≤ 2000) := by
  intro now generated written again ids requests hub
  have steady : (requests.map Prod.fst ++ [now]).Pairwise (· ≤ ·) := by decide
  have stamped : ∀ time revision, (time, .submit revision) ∈ requests ++ [(now, .submit again)] →
      revision.timestamp = time := by
    intro time revision member
    simp only [requests, List.cons_append, List.nil_append, List.mem_cons, Prod.mk.injEq, Request.submit.injEq,
      reduceCtorEq, and_false, false_or, List.not_mem_nil, or_false] at member
    rcases member with ⟨rfl, rfl⟩ | ⟨rfl, rfl⟩ | ⟨rfl, rfl⟩ <;> rfl
  have free : hub.conflictOf[again.path]? = none := by
    decide +kernel
  exact ⟨steady, stamped, free, submit_raises_iff_standing {} ids requests now again steady stamped free⟩

end Hub
end FreshDocs.Sync
