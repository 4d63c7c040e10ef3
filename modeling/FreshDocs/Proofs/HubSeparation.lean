import FreshDocs.Proofs.HubSights

/-! Documents do not get in each other's way. Of one document a hub shows the same, up to the ids it
draws, when nothing is asked of it that concerns other documents. -/

namespace FreshDocs.Sync.Hub

/-- A request as it is put to a hub that knows the ids of the document by other names. Requests about other
documents are left out. -/
def Request.alone? (path : String) (names : Names) : Request → Option Request
  | .submit revision => if revision.path = path then some (.submit revision) else none
  | .resolve id resolution => (names.find? (·.1 = id)).map fun pair => .resolve pair.2 resolution
  | request => some request

/-- What is left of some requests when those about other documents are erased, as another hub has to be asked
in place of the first, and the names by which the two call what they drew for the document. -/
def isolate (path : String) (names : Names) (hub other : Hub) :
    List (Timestamp × Request) → List (Timestamp × Request) × Names
  | [] => ([], names)
  | (now, request) :: rest =>
    match request.alone? path names with
    | none => isolate path names (request.apply now hub) other rest
    | some kept =>
      let drawn := (request.drawn? now hub).toList.zip (kept.drawn? now other).toList
      let (others, later) := isolate path (names ++ drawn) (request.apply now hub) (kept.apply now other) rest
      ((now, kept) :: others, later)

inductive Request.Becomes (path : String) (names : Names) : Request → Request → Prop where
  | submit {revision : Revision} (here : revision.path = path) : Becomes path names (.submit revision) (.submit revision)
  | resolve {id renamed : Uuid} (named : (id, renamed) ∈ names) (resolution : Resolution) :
      Becomes path names (.resolve id resolution) (.resolve renamed resolution)
  | register (transport : Transport) : Becomes path names (.register transport) (.register transport)
  | deregister (client : Nat) : Becomes path names (.deregister client) (.deregister client)
  | broadcast (message : Message) : Becomes path names (.broadcast message) (.broadcast message)
  | heartbeat : Becomes path names .heartbeat .heartbeat
  | flush : Becomes path names .flush .flush

section
variable {path : String} {names : Names} {hub : Hub} {now : Timestamp} {request kept : Request}

private theorem becomes_of_alone? (asked : request.alone? path names = some kept) : request.Becomes path names kept := by
  cases request with
  | submit revision =>
    simp only [Request.alone?] at asked
    split at asked
    next here =>
      cases asked
      exact .submit here
    next => cases asked
  | resolve id resolution =>
    obtain ⟨⟨same, renamed⟩, found, rfl⟩ := Option.map_eq_some_iff.mp asked
    obtain rfl : same = id := by simpa using List.find?_some found
    exact .resolve (List.mem_of_find?_eq_some found) resolution
  | register transport =>
    cases asked
    exact .register transport
  | deregister client =>
    cases asked
    exact .deregister client
  | broadcast message =>
    cases asked
    exact .broadcast message
  | heartbeat =>
    cases asked
    exact .heartbeat
  | flush =>
    cases asked
    exact .flush

theorem unconcerned (left : request.alone? path names = none) : request.concerns path (names.map (·.1)) = false := by
  cases request with
  | submit revision => simpa [Request.alone?, Request.concerns] using left
  | resolve id resolution =>
    have unnamed := List.find?_eq_none.mp (Option.map_eq_none_iff.mp left)
    apply decide_eq_false
    intro member
    obtain ⟨pair, named, same⟩ := List.mem_map.mp member
    exact unnamed pair named (decide_eq_true same)
  | _ => rfl

private theorem sights_elsewhere (left : request.alone? path names = none) :
    request.sights path (names.map (·.1)) now hub = [] := by
  rw [Request.sights, unconcerned left, carried_of_quiet]
  · rfl
  · rintro rfl
    cases left
  · rintro message rfl
    cases left

end

/-! ### One of the two hubs -/

/-- What is known of a hub on its own when it is compared with another over one document. -/
structure Serves (path : String) (now : Timestamp) (known : List Uuid) (hub : Hub) : Prop where
  valid : Consistent hub
  issued : Issued hub
  knows : Knows path known hub
  past : (hub.lane path).Past now

theorem Serves.apply {path : String} {before now : Timestamp} {known : List Uuid} {hub : Hub} {request : Request} {count : Nat}
    (serves : Serves path before known hub) (order : before ≤ now)
    (stamped : ∀ revision, request = .submit revision → revision.timestamp ≤ now)
    (kept : (request.apply now hub).counters.dropped = hub.counters.dropped)
    (enough : (request.apply now hub).ids.next ≤ count) (distinct : hub.ids.Distinct count) :
    Serves path now (request.known path known now hub) (request.apply now hub) := by
  obtain ⟨valid, issued⟩ := apply_keeps serves.valid serves.issued now request enough distinct
  refine ⟨valid, issued, serves.knows.apply serves.issued enough distinct, ?_⟩
  have past := serves.past.later order
  have quiet {after : Hub} (same : after.docket = hub.docket) : (after.lane path).Past now := by
    rw [lane_congr same]
    exact past
  cases request with
  | register transport => exact quiet (docket_register hub transport)
  | deregister client => exact quiet (docket_deregister hub client)
  | broadcast message => exact quiet (docket_broadcast hub message)
  | heartbeat => exact quiet (docket_heartbeat hub now)
  | flush =>
    rw [Request.apply, (flush_lane hub now path).1]
    exact past.flush
  | submit revision =>
    by_cases here : revision.path = path
    · subst here
      rw [Request.apply, (submit_lane serves.valid kept).2]
      exact past.submit (stamped revision rfl) _
    · rcases submit_elsewhere serves.valid serves.issued enough distinct here kept with same | pruned
      · rw [Request.apply, same]
        exact past
      · rw [Request.apply, pruned]
        exact past.prune now
  | resolve id resolution =>
    by_cases member : id ∈ known
    · have about conflict present := (serves.knows.about id conflict present).mpr member
      rw [Request.apply, (resolve_lane serves.valid resolution about kept).2]
      exact past.resolve id _ resolution
    · have other conflict present (place : conflict.path = path) := member ((serves.knows.about id conflict present).mp place)
      rw [Request.apply, resolve_elsewhere serves.valid resolution other kept]
      exact past

theorem Serves.later {path : String} {before now : Timestamp} {known : List Uuid} {hub : Hub}
    (serves : Serves path before known hub) (order : before ≤ now) :
    Serves path now known hub :=
  { serves with past := serves.past.later order }

theorem Serves.initial (path : String) (now : Timestamp) (settings : Settings) (ids : Uuid.Supply) :
    Serves path now [] { settings, ids } := by
  refine ⟨.initial settings ids, .initial settings ids, ⟨by simp, by simp⟩, ⟨?_, ?_⟩⟩
  · intro revision member
    cases member
  · intro revision remembered
    simp [lane] at remembered

/-! ### The two hubs together -/

/-- Two hubs keep the same of a document, up to names, and the second keeps nothing else in its queue. -/
structure Beside (path : String) (now : Timestamp) (names : Names) (hub other : Hub) : Prop where
  settings : other.settings = hub.settings
  lanes : (hub.lane path).Matches names hub.settings.conflictWindow now (other.lane path)
  alone : ∀ revision ∈ other.queue, revision.path = path
  single : names.OneToOne
  first : Serves path now (names.map (·.1)) hub
  second : Serves path now (names.map (·.2)) other

section
variable {path : String} {names : Names} {hub other : Hub} {before now : Timestamp} {request kept : Request}

theorem Beside.narrow (beside : Beside path now names hub other) : other.queue.length ≤ hub.queue.length := by
  have whole : (other.lane path).queue = other.queue := by
    rw [lane, List.filter_eq_self]
    exact fun revision member => decide_eq_true (beside.alone revision member)
  rw [← whole, ← beside.lanes.queue.length_eq]
  exact List.length_filter_le _ _

/-- The second hub has room for what the first has room for. -/
theorem Beside.room (beside : Beside path before names hub other) (order : before ≤ now)
    (asked : request.Becomes path names kept)
    (roomy : (request.apply now hub).counters.dropped = hub.counters.dropped) :
    (kept.apply now other).counters.dropped = other.counters.dropped := by
  have limit : other.queueLimit = hub.queueLimit := by
    rw [queueLimit, beside.settings, queueLimit]
  have lanes := beside.lanes.later order
  cases asked with
  | @submit revision here =>
    subst here
    cases held : other.conflictOf[revision.path]? with
    | some id => exact congrArg Docket.dropped (docket_submit_absorbed now held)
    | none =>
      cases found : other.raised? now revision with
      | some conflict => exact congrArg Docket.dropped (docket_submit_raised now held found)
      | none =>
        have free := beside.first.valid.lane_free.mp
          ((rel_none_iff lanes.conflict).mpr (beside.second.valid.lane_free.mpr held))
        have made := rel_bind (lanes.competing? revision) fun _ _ candidate =>
          between?_matches candidate now revision (List.subset_append_left names [(hub.ids.draw.1, other.ids.draw.1)])
            (List.mem_append_right names List.mem_cons_self)
        have clear : hub.raised? now revision = none := by
          rw [raised?_lane, beside.settings] at found
          rw [raised?_lane]
          exact (rel_none_iff made).mpr found
        have queued := congrArg Docket.dropped (docket_submit_queued now free clear)
        exact (congrArg Docket.dropped (docket_submit_queued now held found)).trans
          (@dropped_enqueue (hub.pruneRecent now) _ (other.pruneRecent now) beside.narrow limit (queued.symm.trans roomy) revision)
  | @resolve id renamed named resolution =>
    cases there : other.conflicts[renamed]? with
    | none => rw [Request.apply, resolve_unknown now resolution there]
    | some conflict =>
      have place := (beside.second.knows.about renamed conflict there).mpr (List.mem_map_of_mem named)
      have pending := beside.second.valid.lane_conflict.mpr ⟨there, place⟩
      have matching := lanes.conflict
      rw [pending] at matching
      obtain ⟨⟨mine, known⟩, held, paired, -⟩ := rel_some matching
      obtain rfl : mine = id := (beside.single _ paired _ named).mpr rfl
      have present := (beside.first.valid.lane_conflict.mp held).1
      have queued := congrArg Docket.dropped (docket_resolve now resolution present)
      exact (congrArg Docket.dropped (docket_resolve now resolution there)).trans
        (@dropped_enqueue (hub.settle mine known.path) _ (other.settle renamed conflict.path) beside.narrow limit
          (queued.symm.trans roomy) _)
  | register transport => rfl
  | deregister client => exact congrArg Docket.dropped (docket_deregister other client)
  | broadcast message => exact congrArg Docket.dropped (docket_broadcast other message)
  | heartbeat => exact congrArg Docket.dropped (docket_heartbeat other now)
  | flush => exact congrArg Docket.dropped (docket_flush other now)

theorem Beside.shows (beside : Beside path before names hub other) (order : before ≤ now)
    (asked : request.Becomes path names kept)
    (roomy : (request.apply now hub).counters.dropped = hub.counters.dropped) :
    let drawn := (request.drawn? now hub).toList.zip (kept.drawn? now other).toList
    ((request.apply now hub).lane path).Matches (names ++ drawn) hub.settings.conflictWindow now ((kept.apply now other).lane path) ∧
      List.Forall₂ (Sight.Matches (names ++ drawn)) (request.sights path (names.map (·.1)) now hub)
        (kept.sights path (names.map (·.2)) now other) ∧
      request.known path (names.map (·.1)) now hub = (names ++ drawn).map (·.1) ∧
      kept.known path (names.map (·.2)) now other = (names ++ drawn).map (·.2) := by
  have room := beside.room order asked roomy
  have lanes := beside.lanes.later order
  have quiet {after later : Hub} (same : after.docket = hub.docket) (alike : later.docket = other.docket) :
      (after.lane path).Matches (names ++ []) hub.settings.conflictWindow now (later.lane path) := by
    rw [lane_congr same, lane_congr alike, List.append_nil]
    exact lanes
  have unnamed {β : Type} (part : Uuid × Uuid → β) : names.map part = (names ++ []).map part := by
    rw [List.append_nil]
  cases asked with
  | @submit revision here =>
    subst here
    obtain ⟨answer, lane⟩ := submit_lane beside.first.valid roomy
    obtain ⟨reply, counterpart⟩ := submit_lane beside.second.valid room
    rw [beside.settings] at reply counterpart
    obtain ⟨same, after⟩ := lanes.submit (beside.first.past.later order) (beside.second.past.later order)
      hub.ids.draw.1 other.ids.draw.1 revision
    rw [← answer, ← reply] at same
    rw [← answer, ← reply, ← lane, ← counterpart] at after
    obtain ⟨first, second⟩ := names.map_zip same.drawn?
    rw [sights_submit, sights_submit]
    refine ⟨after, .cons (.submitted same) .nil, ?_, ?_⟩
    · simp only [Request.known, Request.concerns, decide_true, if_true]
      exact first.symm
    · simp only [Request.known, Request.concerns, decide_true, if_true]
      exact second.symm
  | @resolve id renamed named resolution =>
    have member : id ∈ names.map (·.1) := List.mem_map_of_mem named
    have counter : renamed ∈ names.map (·.2) := List.mem_map_of_mem named
    obtain ⟨answer, lane⟩ := resolve_lane beside.first.valid resolution
      (fun conflict present => (beside.first.knows.about id conflict present).mpr member) roomy
    obtain ⟨reply, counterpart⟩ := resolve_lane beside.second.valid resolution
      (fun conflict present => (beside.second.knows.about renamed conflict present).mpr counter) room
    obtain ⟨same, after⟩ := lanes.resolve beside.single named hub.ids.draw.1 other.ids.draw.1 resolution
    rw [← answer, ← reply] at same
    rw [← answer, ← reply, ← lane, ← counterpart] at after
    obtain ⟨first, second⟩ := names.map_zip same.drawn?
    rw [sights_resolve member, sights_resolve counter]
    refine ⟨after, .cons (.resolved same) .nil, ?_, ?_⟩
    · simp only [Request.known, Request.concerns, decide_eq_true member, if_true]
      exact first.symm
    · simp only [Request.known, Request.concerns, decide_eq_true counter, if_true]
      exact second.symm
  | flush =>
    obtain ⟨passed, after⟩ := lanes.flush
    rw [← (flush_lane hub now path).1, ← (flush_lane other now path).1] at after
    rw [sights_flush, sights_flush]
    simp only [Request.drawn?, Option.toList_none, List.zip_nil_left, List.append_nil]
    refine ⟨after, ?_, rfl, rfl⟩
    generalize (hub.lane path).flush.1 = first at passed ⊢
    generalize (other.lane path).flush.1 = second at passed ⊢
    cases passed with
    | some same => exact .cons (.passedOn now same) .nil
    | none => exact .nil
  | register transport => exact ⟨quiet rfl rfl, .nil, unnamed _, unnamed _⟩
  | deregister client => exact ⟨quiet (docket_deregister hub client) (docket_deregister other client), .nil, unnamed _, unnamed _⟩
  | broadcast message =>
    refine ⟨quiet (docket_broadcast hub message) (docket_broadcast other message), ?_, unnamed _, unnamed _⟩
    change List.Forall₂ _ (([message].filter (·.subject? = some path)).map Sight.sent)
      (([message].filter (·.subject? = some path)).map Sight.sent)
    refine List.forall₂_same.mpr fun sight member => ?_
    obtain ⟨handed, -, rfl⟩ := List.mem_map.mp member
    exact .handed handed
  | heartbeat => exact ⟨quiet (docket_heartbeat hub now) (docket_heartbeat other now), .nil, unnamed _, unnamed _⟩

private theorem Beside.keep {first second : Nat} (beside : Beside path before names hub other) (order : before ≤ now)
    (stamped : ∀ revision, request = .submit revision → revision.timestamp ≤ now)
    (asked : request.Becomes path names kept)
    (roomy : (request.apply now hub).counters.dropped = hub.counters.dropped)
    (enough : (request.apply now hub).ids.next ≤ first) (distinct : hub.ids.Distinct first)
    (ample : (kept.apply now other).ids.next ≤ second) (apart : other.ids.Distinct second) :
    Beside path now (names ++ (request.drawn? now hub).toList.zip (kept.drawn? now other).toList) (request.apply now hub)
      (kept.apply now other) := by
  obtain ⟨lanes, -, known, aware⟩ := beside.shows order asked roomy
  have room := beside.room order asked roomy
  constructor
  · rw [settings_apply, settings_apply, beside.settings]
  · rw [settings_apply]
    exact lanes
  · intro revision member
    rcases queue_origin member with old | rfl | ⟨id, resolution, conflict, rfl, there, place⟩
    · exact beside.alone revision old
    · cases asked with
      | submit here => exact here
    · cases asked with
      | resolve named =>
        rw [place]
        exact (beside.second.knows.about id conflict there).mpr (List.mem_map_of_mem named)
  · refine beside.single.zip ?_ ?_
    · exact fun id new old => (drawn?_new new enough distinct).1 (beside.first.knows.drawn id old)
    · exact fun id new old => (drawn?_new new ample apart).1 (beside.second.knows.drawn id old)
  · rw [← known]
    exact beside.first.apply order stamped roomy enough distinct
  · rw [← aware]
    refine beside.second.apply order ?_ room ample apart
    rintro revision rfl
    cases asked with
    | submit here => exact stamped revision rfl

theorem Beside.skip {count : Nat} (beside : Beside path before names hub other) (order : before ≤ now)
    (stamped : ∀ revision, request = .submit revision → revision.timestamp ≤ now)
    (left : request.alone? path names = none)
    (roomy : (request.apply now hub).counters.dropped = hub.counters.dropped)
    (enough : (request.apply now hub).ids.next ≤ count) (distinct : hub.ids.Distinct count) :
    Beside path now names (request.apply now hub) other := by
  have lanes := beside.lanes.later order
  have past := beside.first.past.later order
  have served := beside.first.apply order stamped roomy enough distinct
  rw [Request.known, unconcerned left, if_neg Bool.false_ne_true] at served
  refine ⟨?_, ?_, beside.alone, beside.single, served, beside.second.later order⟩
  · rw [settings_apply, beside.settings]
  · rw [settings_apply]
    have unconcerned := unconcerned left
    cases request with
    | submit revision =>
      have elsewhere : revision.path ≠ path := of_decide_eq_false unconcerned
      rcases submit_elsewhere beside.first.valid beside.first.issued enough distinct elsewhere roomy with same | pruned
      · rw [Request.apply, same]
        exact lanes
      · rw [Request.apply, pruned]
        exact lanes.prune_left past
    | resolve id resolution =>
      have unknown : id ∉ names.map (·.1) := of_decide_eq_false unconcerned
      have elsewhere conflict present (place : conflict.path = path) :=
        unknown ((beside.first.knows.about id conflict present).mp place)
      rw [Request.apply, resolve_elsewhere beside.first.valid resolution elsewhere roomy]
      exact lanes
    | _ => cases left

private theorem isolate_subset (requests : List (Timestamp × Request)) (names : Names) (hub other : Hub) :
    names ⊆ (isolate path names hub other requests).2 := by
  induction requests generalizing names hub other with
  | nil => exact List.Subset.refl _
  | cons entry rest ih =>
    obtain ⟨time, request⟩ := entry
    rw [isolate]
    cases request.alone? path names with
    | none => exact ih _ _ _
    | some kept => exact List.Subset.trans (List.subset_append_left _ _) (ih _ _ _)

private theorem isolate_length (requests : List (Timestamp × Request)) (names : Names) (hub other : Hub) :
    (isolate path names hub other requests).1.length ≤ requests.length := by
  induction requests generalizing names hub other with
  | nil => exact Nat.le_refl _
  | cons entry rest ih =>
    obtain ⟨time, request⟩ := entry
    rw [isolate]
    cases request.alone? path names with
    | none => exact Nat.le_succ_of_le (ih _ _ _)
    | some kept => exact Nat.succ_le_succ (ih _ _ _)

theorem Beside.run {requests : List (Timestamp × Request)} (beside : Beside path before names hub other)
    (steady : (before :: requests.map Prod.fst).Pairwise (· ≤ ·))
    (stamped : ∀ time revision, (time, .submit revision) ∈ requests → revision.timestamp ≤ time)
    (roomy : (run hub requests).counters.dropped = hub.counters.dropped)
    (distinct : hub.ids.Distinct (run hub requests).ids.next)
    (apart : other.ids.Distinct (run other (isolate path names hub other requests).1).ids.next) :
    (∃ last, Beside path last (isolate path names hub other requests).2 (run hub requests)
        (run other (isolate path names hub other requests).1)) ∧
      List.Forall₂ (Sight.Matches (isolate path names hub other requests).2) (sights path (names.map (·.1)) hub requests)
        (sights path (names.map (·.2)) other (isolate path names hub other requests).1) := by
  induction requests generalizing before names hub other with
  | nil => exact ⟨⟨before, beside⟩, .nil⟩
  | cons entry rest ih =>
    obtain ⟨now, request⟩ := entry
    have order : before ≤ now := List.rel_of_pairwise_cons steady List.mem_cons_self
    have handed (revision : Revision) (same : request = .submit revision) : revision.timestamp ≤ now :=
      stamped now revision (same ▸ List.mem_cons_self)
    have later (time : Timestamp) (revision : Revision) (member : (time, .submit revision) ∈ rest) :=
      stamped time revision (List.mem_cons_of_mem _ member)
    have more := dropped_apply now hub request
    have most := dropped_run rest (request.apply now hub)
    rw [Hub.run] at roomy distinct
    have room : (request.apply now hub).counters.dropped = hub.counters.dropped := by omega
    have enough := (ids_run rest (request.apply now hub)).1
    have further := distinct_apply now request distinct
    rw [Hub.run, sights, isolate]
    rw [isolate] at apart
    cases asked : request.alone? path names with
    | none =>
      rw [asked] at apart
      have skipped := beside.skip order handed asked room enough distinct
      rw [sights_elsewhere asked, Request.known, unconcerned asked, if_neg Bool.false_ne_true]
      exact ih skipped steady.of_cons later (by omega) further apart
    | some kept =>
      rw [asked] at apart
      dsimp only at apart ⊢
      have asked := becomes_of_alone? asked
      have ample others := (ids_run others (kept.apply now other)).1
      obtain ⟨-, shown, known, aware⟩ := beside.shows order asked room
      obtain ⟨ends, shows⟩ := ih (beside.keep order handed asked room enough distinct (ample _) apart) steady.of_cons later
        (by omega) further (distinct_apply now kept apart)
      refine ⟨ends, ?_⟩
      rw [sights, known, aware]
      exact List.rel_append (shown.imp fun _ _ same => same.mono (isolate_subset _ _ _ _)) shows

theorem Beside.initial (path : String) (now : Timestamp) (settings : Settings) (ids others : Uuid.Supply) :
    Beside path now [] { settings, ids } { settings, ids := others } := by
  refine ⟨rfl, ⟨.nil, ?_, ?_⟩, by simp, ?_, .initial path now settings ids, .initial path now settings others⟩
  · intro time order
    simp [lane, Lane.prune]
  · simp [lane]
  · intro pair member
    cases member

end

/-- A document is served as if there were no others. While the queue does not overflow, the clock does not go back
and no revision is stamped later than it is handed in, requests about it get the same answers, the same is sent of it
and the same conflict is pending as when all requests about other documents are erased, up to the ids that are drawn. -/
theorem run_isolates (settings : Settings) (ids others : Uuid.Supply) (requests : List (Timestamp × Request)) (path : String)
    (steady : (requests.map Prod.fst).Pairwise (· ≤ ·))
    (stamped : ∀ now revision, (now, .submit revision) ∈ requests → revision.timestamp ≤ now)
    (roomy : (run { settings, ids } requests).counters.dropped = 0)
    (distinct : ids.Distinct (run { settings, ids } requests).ids.next)
    (apart : others.Distinct (others.next + requests.length)) :
    let whole : Hub := { settings, ids }
    let alone : Hub := { settings, ids := others }
    let kept := (isolate path [] whole alone requests).1
    let names := (isolate path [] whole alone requests).2
    names.OneToOne ∧ Knows path (names.map (·.1)) (run whole requests) ∧ Knows path (names.map (·.2)) (run alone kept) ∧
      List.Forall₂ (Sight.Matches names) (sights path [] whole requests) (sights path [] alone kept) ∧
      Option.Rel (Conflict.Matches names) ((run whole requests).conflictFor? path) ((run alone kept).conflictFor? path) := by
  intro whole alone kept names
  obtain ⟨before, order⟩ : ∃ before, (before :: requests.map Prod.fst).Pairwise (· ≤ ·) := by
    cases requests with
    | nil => exact ⟨.ofNanos 0, List.pairwise_singleton _ _⟩
    | cons entry rest =>
      -- Nothing has happened yet when the first request comes, so its own time may stand before it.
      refine ⟨entry.1, List.pairwise_cons.mpr ⟨fun time member => ?_, steady⟩⟩
      rcases List.mem_cons.mp member with rfl | later
      · exact Int.le_refl _
      · exact List.rel_of_pairwise_cons steady later
  have fewer : (run alone kept).ids.next ≤ others.next + requests.length :=
    Nat.le_trans (ids_run kept alone).2 (Nat.add_le_add_left (isolate_length requests [] whole alone) _)
  obtain ⟨⟨last, beside⟩, shows⟩ :=
    (Beside.initial path before settings ids others).run order stamped roomy distinct (apart.mono fewer)
  refine ⟨beside.single, beside.first.knows, beside.second.knows, shows, ?_⟩
  have pending := beside.lanes.conflict
  rw [conflictFor?_lane, conflictFor?_lane]
  generalize ((run whole requests).lane path).conflict = first at pending ⊢
  generalize ((run alone kept).lane path).conflict = second at pending ⊢
  cases pending with
  | some same => exact .some same.2
  | none => exact .none

/-- Two documents clash in turn. What is asked about the first is the same without the second, where its conflict
gets the first id that is drawn and not the second. -/
theorem interleaved_isolates :
    let generated := Revision.make (.ofNat 1) (.ofNanos 0) .file "guide.md" "generated" .auto
    let written := Revision.make (.ofNat 2) (.ofNanos 2) .file "guide.md" "by hand" .manual
    let notes := Revision.make (.ofNat 3) (.ofNanos 0) .file "notes.md" "generated" .auto
    let edited := Revision.make (.ofNat 4) (.ofNanos 1) .file "notes.md" "by hand" .manual
    let ids : Uuid.Supply := { space := 1 }
    let fresh : Uuid.Supply := { space := 2 }
    let requests : List (Timestamp × Request) :=
      [(.ofNanos 0, .submit generated), (.ofNanos 1, .submit notes), (.ofNanos 1, .submit edited),
        (.ofNanos 2, .submit written), (.ofNanos 3, .resolve (ids.nth 1) .auto),
        (.ofNanos 4, .resolve (ids.nth 2) (.merge "merged")), (.ofNanos 5, .flush)]
    let isolated := isolate "guide.md" [] { settings := {}, ids } { settings := {}, ids := fresh } requests
    (requests.map Prod.fst).Pairwise (· ≤ ·) ∧
      (∀ now revision, (now, .submit revision) ∈ requests → revision.timestamp ≤ now) ∧
      (run { settings := {}, ids } requests).counters.dropped = 0 ∧
      ids.Distinct (run { settings := {}, ids } requests).ids.next ∧
      fresh.Distinct (fresh.next + requests.length) ∧
      isolated.2 = [(ids.nth 2, fresh.nth 1), (ids.nth 4, fresh.nth 2)] ∧
      List.Forall₂ (Sight.Matches isolated.2) (sights "guide.md" [] { settings := {}, ids } requests)
        (sights "guide.md" [] { settings := {}, ids := fresh } isolated.1) := by
  intro generated written notes edited ids fresh requests isolated
  have steady : (requests.map Prod.fst).Pairwise (· ≤ ·) := by decide
  have stamped : ∀ now revision, (now, .submit revision) ∈ requests → revision.timestamp ≤ now := by
    intro now revision member
    simp only [requests, List.mem_cons, Prod.mk.injEq, Request.submit.injEq, reduceCtorEq, and_false, List.not_mem_nil,
      or_false] at member
    rcases member with ⟨rfl, rfl⟩ | ⟨rfl, rfl⟩ | ⟨rfl, rfl⟩ | ⟨rfl, rfl⟩ <;> decide
  have roomy : (run { settings := {}, ids } requests).counters.dropped = 0 := by decide +kernel
  have distinct : ids.Distinct (run { settings := {}, ids } requests).ids.next := by
    apply Uuid.Supply.distinct_of_le
    exact Nat.le_trans (Nat.add_le_add_left (ids_run _ _).2 _) (by decide)
  have apart : fresh.Distinct (fresh.next + requests.length) :=
    Uuid.Supply.distinct_of_le fresh (by decide)
  have named : isolated.2 = [(ids.nth 2, fresh.nth 1), (ids.nth 4, fresh.nth 2)] := by decide +kernel
  have separate := run_isolates {} ids fresh requests "guide.md" steady stamped roomy distinct apart
  exact ⟨steady, stamped, roomy, distinct, apart, named, separate.2.2.2.1⟩

end FreshDocs.Sync.Hub
