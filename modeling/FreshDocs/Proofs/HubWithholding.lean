import FreshDocs.Proofs.HubIds
import FreshDocs.Proofs.HubMessages
import FreshDocs.Proofs.HubSides

/-! What a pending conflict keeps back. Until it is settled the hub sends nothing of its document, and
what comes in for it takes a side. It is settled once, by a single revision. -/

namespace FreshDocs.Sync

/-- A side of a conflict after more revisions of its document: the last one of that origin, or what was
there before. -/
def Conflict.sideAfter (conflict : Conflict) (revisions : List Revision) (origin : Origin) : Side :=
  ((Hub.latest? (·.origin = origin) revisions).map .ofRevision).getD (conflict.side origin)

def Conflict.settlement (conflict : Conflict) (revisions : List Revision) : Resolution → String
  | .auto => (conflict.sideAfter revisions .auto).content
  | .manual => (conflict.sideAfter revisions .manual).content
  | .merge content => content

private theorem Conflict.side_foldl (conflict : Conflict) (revisions : List Revision) (origin : Origin) :
    (revisions.foldl Conflict.absorb conflict).side origin = conflict.sideAfter revisions origin := by
  induction revisions generalizing conflict with
  | nil => rfl
  | cons first rest ih =>
    rw [List.foldl_cons, ih, sideAfter, sideAfter, Hub.latest?_cons, side_absorb]
    cases later : Hub.latest? (·.origin = origin) rest with
    | some last => rfl
    | none => by_cases same : first.origin = origin <;> simp [same]

private theorem Conflict.scope_foldl (conflict : Conflict) (revisions : List Revision) :
    (revisions.foldl Conflict.absorb conflict).scope = conflict.scope := by
  induction revisions generalizing conflict with
  | nil => rfl
  | cons first rest ih =>
    rw [List.foldl_cons, ih]
    cases made : first.origin <;> simp [absorb, made]

private theorem Conflict.settle_shape (conflict : Conflict) (revisions : List Revision) (id : Uuid) (now : Timestamp)
    (resolution : Resolution) :
    let update := (revisions.foldl Conflict.absorb conflict).settle id now resolution
    update.scope = conflict.scope ∧ update.content = conflict.settlement revisions resolution ∧
      (update.origin = .auto ↔ resolution = .auto) ∧ update.verify = true := by
  have auto := conflict.side_foldl revisions .auto
  have manual := conflict.side_foldl revisions .manual
  have scope := conflict.scope_foldl revisions
  simp only [side] at auto manual
  cases resolution with
  | auto => simp [settle, Revision.make, settlement, Revision.verify, auto, scope]
  | manual => simp [settle, Revision.make, settlement, Revision.verify, manual, scope]
  | merge content => simp [settle, Revision.make, settlement, Revision.verify, scope]

namespace Hub
open Std

def Request.handed? (path : String) : Request → Option Revision
  | .submit revision => if revision.path = path then some revision else none
  | _ => none

def handed (path : String) (requests : List (Timestamp × Request)) : List Revision :=
  requests.filterMap fun entry => entry.2.handed? path

structure Pends (hub : Hub) (id : Uuid) (path : String) (conflict : Conflict) : Prop where
  valid : Consistent hub
  issued : Issued hub
  present : hub.conflicts[id]? = some conflict
  path : conflict.path = path

section
variable {hub : Hub} {id : Uuid} {path : String} {conflict : Conflict} {now : Timestamp}

theorem Pends.held (pends : Pends hub id path conflict) : hub.conflictOf[path]? = some id :=
  (pends.valid.inverse path id).mpr ⟨conflict, pends.present, pends.path⟩

/-- The queue is free of the document, so a message that carries it can only have been handed in as it is. -/
theorem Pends.withholds (pends : Pends hub id path conflict) {request : Request} {message : Message}
    (sent : message ∈ request.messages now hub) (subject : message.subject? = some path) : request = .broadcast message := by
  rcases subject_of_messages sent subject with handed | ⟨-, revision, passed, -, rfl⟩
  · exact handed
  · have free := pends.valid.queue revision (compact_subset passed)
    rw [pends.held] at free
    cases free

theorem Pends.step (pends : Pends hub id path conflict) {request : Request}
    (other : ∀ resolution, request ≠ .resolve id resolution) {count : Nat}
    (enough : (request.apply now hub).ids.next ≤ count) (distinct : hub.ids.Distinct count) :
    Pends (request.apply now hub) id path ((request.handed? path).toList.foldl Conflict.absorb conflict) := by
  obtain ⟨valid, issued⟩ := apply_keeps pends.valid pends.issued now request enough distinct
  have held := pends.held
  have present := pends.present
  have unmoved (quiet : request.handed? path = none)
      (kept : (request.apply now hub).conflicts[id]? = some conflict) :
      Pends (request.apply now hub) id path ((request.handed? path).toList.foldl Conflict.absorb conflict) := by
    rw [quiet]
    exact ⟨valid, issued, kept, pends.path⟩
  have elsewhere {revision : Revision} (free : hub.conflictOf[revision.path]? = none) : revision.path ≠ path := by
    intro same
    rw [same, held] at free
    cases free
  have happened := change now hub request
  generalize after : (request.apply now hub).docket = docket at happened
  have conflicts : (request.apply now hub).conflicts = docket.conflicts := congrArg Docket.conflicts after
  cases happened with
  | idle quiet still =>
    refine unmoved ?_ (by rw [conflicts]; exact present)
    cases request with
    | submit revision =>
      -- Whatever is submitted is queued or goes into a conflict.
      simp only [Request.entries] at quiet
      simp only [Request.departed] at still
      split at quiet <;> simp_all
    | _ => rfl
  | @absorbed revision absorbing found =>
    by_cases same : revision.path = path
    · rw [same, held] at found
      cases found
      refine ⟨valid, issued, ?_, ?_⟩
      · rw [conflicts]
        simp [docket, present, Request.handed?, same]
      · simp [Request.handed?, same, (absorb_path conflict revision).1, pends.path]
    · refine unmoved (by simp [Request.handed?, same]) ?_
      have apart : absorbing ≠ id := by
        intro alike
        obtain ⟨old, known, place⟩ := (pends.valid.inverse revision.path absorbing).mp found
        rw [alike, present] at known
        cases known
        exact same (place.symm.trans pends.path)
      rw [conflicts]
      simp [docket, ExtTreeMap.getElem?_modify, present, apart]
  | @raised revision made free found =>
    obtain ⟨place, named, -⟩ := raised?_shape found
    refine unmoved (by simp [Request.handed?, elsewhere free]) ?_
    have drawn : ((Request.submit revision).apply now hub).ids = hub.ids.draw.2 := congrArg Docket.ids after
    -- The other conflict has a new id, and this one was given an old one.
    have apart : made.id ≠ id := by
      intro alike
      rw [drawn] at enough
      have fresh := pends.issued.fresh enough distinct
      rw [← named, alike, present] at fresh
      cases fresh
    rw [conflicts]
    simp [docket, raise, ExtTreeMap.getElem?_insert, apart]
    exact present
  | @queued revision free clear =>
    refine unmoved (by simp [Request.handed?, elsewhere free]) ?_
    rw [conflicts]
    exact (congrArg (·[id]?) (conflicts_enqueue (hub.pruneRecent now) revision)).trans present
  | @settled settling resolution settled known =>
    refine unmoved rfl ?_
    have apart : settling ≠ id := by
      rintro rfl
      exact other resolution rfl
    rw [conflicts]
    refine (congrArg (·[id]?) (conflicts_enqueue _ _)).trans ?_
    simp [settle, ExtTreeMap.getElem?_erase, present, apart]
  | flushed => exact unmoved rfl (by rw [conflicts]; exact present)

theorem Pends.run (pends : Pends hub id path conflict) (requests : List (Timestamp × Request))
    (unsettled : ∀ time resolution, (time, .resolve id resolution) ∉ requests)
    (distinct : hub.ids.Distinct (run hub requests).ids.next) :
    Pends (run hub requests) id path ((handed path requests).foldl Conflict.absorb conflict) := by
  induction requests generalizing hub conflict with
  | nil => exact pends
  | cons entry rest ih =>
    obtain ⟨time, request⟩ := entry
    have enough := (ids_run rest (request.apply time hub)).1
    have other (resolution : Resolution) : request ≠ .resolve id resolution := by
      rintro rfl
      exact unsettled time resolution List.mem_cons_self
    have split : handed path ((time, request) :: rest) = (request.handed? path).toList ++ handed path rest := by
      simp only [handed, List.filterMap_cons]
      cases request.handed? path <;> rfl
    rw [split, List.foldl_append]
    exact ih (pends.step other enough distinct)
      (fun later resolution member => unsettled later resolution (List.mem_cons_of_mem _ member))
      (distinct_apply time request distinct)

private theorem pends_raised {revision : Revision} (valid : Consistent hub) (issued : Issued hub)
    (raises : (hub.submit now revision).1 = .conflict id) {count : Nat}
    (enough : (hub.submit now revision).2.ids.next ≤ count) (distinct : hub.ids.Distinct count) :
    ∃ conflict, Pends (hub.submit now revision).2 id revision.path conflict := by
  obtain ⟨valid, issued⟩ := submit_keeps valid issued now revision enough distinct
  cases held : hub.conflictOf[revision.path]? with
  | some other =>
    rw [outcome_absorbed now held] at raises
    cases raises
  | none =>
    obtain ⟨conflict, found⟩ := Option.isSome_iff_exists.mp ((outcome_conflict_iff held).mp ⟨id, raises⟩)
    obtain ⟨path, named, -⟩ := raised?_shape found
    have same : hub.ids.draw.1 = id := by
      rw [outcome_raised now held found] at raises
      injection raises
    refine ⟨conflict, valid, issued, ?_, path⟩
    have conflicts : (hub.submit now revision).2.conflicts = _ :=
      congrArg Docket.conflicts (docket_submit_raised now held found)
    rw [conflicts]
    simp [docket, raise, named, same]

/-- An id was given to a conflict that is no longer pending. -/
structure Spent (hub : Hub) (id : Uuid) : Prop where
  absent : hub.conflicts[id]? = none
  drawn : Drawn hub id

theorem Spent.step (spent : Spent hub id) (request : Request) {count : Nat}
    (enough : (request.apply now hub).ids.next ≤ count) (distinct : hub.ids.Distinct count) :
    Spent (request.apply now hub) id := by
  refine ⟨?_, spent.drawn.apply now request⟩
  cases present : (request.apply now hub).conflicts[id]? with
  | none => rfl
  | some conflict =>
    rcases conflict_origin present with ⟨old, there, -⟩ | ⟨revision, -, -, new⟩
    · rw [spent.absent] at there
      cases there
    · exact absurd spent.drawn (drawn?_new new enough distinct).1

theorem Spent.run (spent : Spent hub id) (requests : List (Timestamp × Request))
    (distinct : hub.ids.Distinct (run hub requests).ids.next) : Spent (run hub requests) id := by
  induction requests generalizing hub with
  | nil => exact spent
  | cons entry rest ih =>
    obtain ⟨time, request⟩ := entry
    have enough := (ids_run rest (request.apply time hub)).1
    exact ih (spent.step request enough distinct) (distinct_apply time request distinct)

private theorem queue_resolve (resolution : Resolution) (known : hub.conflicts[id]? = some conflict) :
    ∃ (lost : Option Revision) (kept : List Revision), hub.queue = lost.toList ++ kept ∧
      (hub.resolve now id resolution).2.queue = kept ++ [conflict.settle hub.ids.draw.1 now resolution] := by
  have queue : (hub.resolve now id resolution).2.queue = _ := congrArg Docket.queue (docket_resolve now resolution known)
  rw [queue]
  rcases enqueue_cases (hub.settle id conflict.path) (conflict.settle hub.ids.draw.1 now resolution) with
    ⟨-, queued⟩ | ⟨oldest, rest, full, line, queued⟩
  · rw [queued]
    exact ⟨none, hub.queue, rfl, rfl⟩
  · rw [queued]
    cases shape : hub.queue with
    | nil =>
      have empty : (hub.settle id conflict.path).queue = [] := shape
      have room : 1 ≤ (hub.settle id conflict.path).queueLimit := Nat.le_max_right _ _
      rw [empty, List.length_nil] at full
      omega
    | cons first others =>
      have begun : (hub.settle id conflict.path).queue = first :: others := shape
      rw [begun, List.cons_append, List.cons.injEq] at line
      exact ⟨some first, others, rfl, line.2.symm⟩

/-- A pending conflict is settled, and its id is spent. -/
theorem Pends.settle (pends : Pends hub id path conflict) (resolution : Resolution) :
    Spent (hub.resolve now id resolution).2 id := by
  refine ⟨?_, (pends.issued.drawn pends.present).apply now (.resolve id resolution)⟩
  have conflicts : (hub.resolve now id resolution).2.conflicts = _ :=
    congrArg Docket.conflicts (docket_resolve now resolution pends.present)
  rw [conflicts]
  exact (congrArg (·[id]?) (conflicts_enqueue _ _)).trans ExtTreeMap.getElem?_erase_self

end

/-- While a conflict is pending, nothing that the hub sends of its own carries its document. It is settled
by one revision, with the sides as they were last replaced, and only once. -/
theorem run_withholds (settings : Settings) (ids : Uuid.Supply) (before between later : List (Timestamp × Request))
    (now moment : Timestamp) (revision : Revision) (id : Uuid) (resolution : Resolution)
    (raises : ((run { settings, ids } before).submit now revision).1 = .conflict id)
    (unsettled : ∀ time other, (time, .resolve id other) ∉ between)
    (distinct : ids.Distinct (run { settings, ids } (before ++ (now, .submit revision) ::
      (between ++ (moment, .resolve id resolution) :: later))).ids.next) :
    let raised := ((run { settings, ids } before).submit now revision).2
    let reached := run raised between
    let settled := (reached.resolve moment id resolution).2
    (∀ first time request rest, between = first ++ (time, request) :: rest →
      ∀ message ∈ request.messages time (run raised first), message.subject? = some revision.path → request = .broadcast message) ∧
      (∃ conflict update, raised.conflicts[id]? = some conflict ∧ (reached.resolve moment id resolution).1 = .ok update ∧
        update.path = revision.path ∧ update.scope = conflict.scope ∧
        update.content = conflict.settlement (handed revision.path between) resolution ∧
        (update.origin = .auto ↔ resolution = .auto) ∧ update.verify = true ∧
        ∃ (lost : Option Revision) (kept : List Revision),
          reached.queue = lost.toList ++ kept ∧ settled.queue = kept ++ [update]) ∧
      (∀ time other, (run settled later).resolve time id other = (.error (.unknownConflict id), run settled later)) ∧
      ∀ (hub : Hub) time unknown other, hub.conflicts[unknown]? = none →
        hub.resolve time unknown other = (.error (.unknownConflict unknown), hub) := by
  intro raised reached settled
  have whole : run { settings, ids } (before ++ (now, .submit revision) ::
      (between ++ (moment, .resolve id resolution) :: later)) = run settled later := by
    rw [run_append, run, run_append, run]
    rfl
  rw [whole] at distinct
  have last := (ids_run later settled).1
  have middle : reached.ids.next ≤ settled.ids.next := (ids_run [(moment, .resolve id resolution)] reached).1
  have first : raised.ids.next ≤ reached.ids.next := (ids_run between raised).1
  have start : (run { settings, ids } before).ids.next ≤ raised.ids.next := (ids_run [(now, .submit revision)] _).1
  obtain ⟨valid, issued⟩ := run_keeps (.initial settings ids) (.initial settings ids) before (distinct.mono (by omega))
  have opened : (run { settings, ids } before).ids.Distinct (run settled later).ids.next :=
    @distinct_run { settings, ids } before _ distinct
  have enough : raised.ids.next ≤ (run settled later).ids.next := by omega
  obtain ⟨conflict, pends⟩ := pends_raised valid issued raises enough opened
  have taken : raised.ids.Distinct (run settled later).ids.next := distinct_run [(now, .submit revision)] opened
  have reaches : reached.ids.next ≤ (run settled later).ids.next := by omega
  have held := pends.run between unsettled (taken.mono reaches)
  refine ⟨?_, ?_, ?_, ?_⟩
  · intro begun time request rest split message sent subject
    subst split
    have fewer : ∀ time other, (time, .resolve id other) ∉ begun := fun time other member =>
      unsettled time other (List.mem_append_left _ member)
    have more := (ids_run ((time, request) :: rest) (run raised begun)).1
    rw [← run_append] at more
    exact (pends.run begun fewer (taken.mono (Nat.le_trans more reaches))).withholds sent subject
  · obtain ⟨scope, content, origin, sound⟩ :=
      conflict.settle_shape (handed revision.path between) reached.ids.draw.1 moment resolution
    obtain ⟨lost, kept, queue, queued⟩ := queue_resolve resolution held.present
    exact ⟨conflict, _, pends.present, resolve_known moment resolution held.present,
      (settle_path _ _ _ _).trans held.path, scope, content, origin, sound, lost, kept, queue, queued⟩
  · intro time other
    have spent : Spent (run settled later) id :=
      (held.settle resolution).run later ((distinct_run [(moment, .resolve id resolution)] (distinct_run between taken)))
    exact resolve_unknown time other spent.absent
  · exact fun hub time unknown other absent => resolve_unknown time other absent

/-- A conflict takes in another generated revision, a flush in between sends nothing of its document, and the
generated content is kept. -/
theorem kept_withholds :
    let generated := Revision.make (.ofNat 1) (.ofNanos 0) .file "guide.md" "generated" .auto
    let written := Revision.make (.ofNat 2) (.ofNanos 1) .file "guide.md" "by hand" .manual
    let again := Revision.make (.ofNat 3) (.ofNanos 2) .file "guide.md" "generated again" .auto
    let ids : Uuid.Supply := { space := 1 }
    let id := ids.nth 1
    let between : List (Timestamp × Request) := [(.ofNanos 2, .submit again), (.ofNanos 3, .flush)]
    let hub := run { settings := {}, ids } [(.ofNanos 0, .submit generated)]
    let raised := (hub.submit (.ofNanos 1) written).2
    let reached := run raised between
    (hub.submit (.ofNanos 1) written).1 = .conflict id ∧
      (∀ time other, (time, .resolve id other) ∉ between) ∧
      ∃ conflict update, raised.conflicts[id]? = some conflict ∧
        (reached.resolve (.ofNanos 4) id .auto).1 = .ok update ∧
        update.content = conflict.settlement (handed "guide.md" between) .auto ∧ update.verify = true := by
  intro generated written again ids id between hub raised reached
  have raises : (hub.submit (.ofNanos 1) written).1 = .conflict id := by
    decide +kernel
  have unsettled : ∀ time other, (time, .resolve id other) ∉ between := by
    simp [between]
  have distinct : ids.Distinct (run { settings := {}, ids } ([(.ofNanos 0, .submit generated)] ++
      (.ofNanos 1, .submit written) :: (between ++ (.ofNanos 4, .resolve id .auto) :: []))).ids.next := by
    apply Uuid.Supply.distinct_of_le
    exact Nat.le_trans (Nat.add_le_add_left (ids_run _ _).2 _) (by decide)
  obtain ⟨-, ⟨conflict, update, present, answer, -, -, content, -, sound, -⟩, -, -⟩ :=
    run_withholds {} ids [(.ofNanos 0, .submit generated)] between [] (.ofNanos 1) (.ofNanos 4) written id .auto raises
      unsettled distinct
  exact ⟨raises, unsettled, conflict, update, present, answer, content, sound⟩

end Hub
end FreshDocs.Sync
