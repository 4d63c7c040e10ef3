import FreshDocs.Proofs.BatchPortions

/-! How a scheduler stops. Whoever asks it to stop is answered when all that was handed in before has been
applied. From then on nothing is taken any more, and nothing happens. What is taken in between, while the last batch
is being applied, is lost. -/

namespace FreshDocs.Batch

variable {σ : Type}

namespace Scheduler

/-- Nothing is gathered while a batch is applied, and nothing is left once the scheduler has stopped. -/
structure Drained (scheduler : Scheduler) : Prop where
  busy : scheduler.waiting.isSome = true → scheduler.pending = []
  shut : scheduler.accepting = false → scheduler.mailbox = [] ∧ scheduler.waiting = none ∧ scheduler.pending = []

/-- A ticket that was given to no more than a request to stop: when it is answered, the scheduler has stopped. -/
structure Closing (ticket : Ticket) (scheduler : Scheduler) : Prop where
  queued : ∀ command ∈ scheduler.mailbox, command.ticket? = some ticket → command.ends = true
  underway : ∀ waiting, scheduler.waiting = some waiting →
    waiting.batch.after.ticket? = some ticket → waiting.batch.after.ends = true
  answered : ticket ∈ scheduler.acknowledged → scheduler.accepting = false

private theorem accepting_proceed (scheduler : Scheduler) (next : After) :
    (scheduler.proceed next).accepting = (scheduler.accepting && !next.ends) := by
  cases next <;> simp [proceed, After.ends]

private theorem drained_proceed {scheduler : Scheduler} (ready : scheduler.accepting = true) (free : scheduler.waiting = none)
    (empty : scheduler.pending = []) (next : After) : (scheduler.proceed next).Drained := by
  cases next <;> exact ⟨by simp [proceed, free], by simp [proceed, ready, free, empty]⟩

theorem Closing.proceed {ticket : Ticket} {scheduler : Scheduler} (closing : scheduler.Closing ticket) (next : After)
    (here : next.ticket? = some ticket → next.ends = true) : (scheduler.proceed next).Closing ticket := by
  refine ⟨?_, ?_, ?_⟩
  · cases next with
    | gather | acknowledge => exact closing.queued
    | stop => exact fun command member => absurd member List.not_mem_nil
  · rw [waiting_proceed]
    exact closing.underway
  · rw [mem_acknowledged_proceed, accepting_proceed]
    rintro (named | older)
    · simp [here named]
    · simp [closing.answered older]

end Scheduler

/-! ### Turns -/

section
variable {batch : Running} {next : After} {before after : Scheduler} {outcomes : List Outcome} {ticket : Ticket}

theorem Ran.drained (ran : Ran batch before outcomes after) (ready : before.accepting = true)
    (empty : before.pending = []) : after.Drained := by
  cases ran with
  | waits => exact ⟨fun _ => empty, fun closed => absurd (ready.symm.trans closed) nofun⟩
  | ends =>
    apply Scheduler.drained_proceed
    · exact ready
    · rfl
    · exact empty

theorem Applied.drained (applied : Applied next before outcomes after) (ready : before.accepting = true)
    (free : before.waiting = none) : after.Drained := by
  cases applied with
  | nothing empty => exact Scheduler.drained_proceed ready free empty next
  | batch now plan outcomes after gathered covers ran => exact ran.drained ready rfl

theorem Turned.drained (turned : Turned before outcomes after) (drained : before.Drained) : after.Drained := by
  cases turned with
  | rests => exact drained
  | skips rest ready first | gathers now changes rest ready first =>
    exact ⟨fun busy => absurd (ready.2 ▸ busy) nofun, fun closed => absurd (ready.1.symm.trans closed) nofun⟩
  | obeys command rest next outcomes after ready first follows applied => exact applied.drained ready.1 ready.2
  | closes outcomes after free applied =>
    cases ready : before.accepting with
    | true => exact applied.drained ready free
    | false =>
      cases applied with
      | nothing => exact ⟨drained.busy, drained.shut⟩
      | batch now plan outcomes after gathered => exact absurd (drained.shut ready).2.2 gathered
  | resumes waiting outcomes after held ran =>
    cases ready : before.accepting with
    | true => exact ran.drained ready (drained.busy (held ▸ rfl))
    | false => exact absurd ((drained.shut ready).2.1.symm.trans held) nofun

theorem Ran.closing (ran : Ran batch before outcomes after) (closing : before.Closing ticket)
    (here : batch.after.ticket? = some ticket → batch.after.ends = true) : after.Closing ticket := by
  cases ran with
  | waits =>
    refine ⟨closing.queued, ?_, closing.answered⟩
    rintro waiting ⟨⟩
    exact here
  | ends =>
    apply Scheduler.Closing.proceed
    · exact ⟨closing.queued, by rintro waiting ⟨⟩, closing.answered⟩
    · exact here

theorem Applied.closing (applied : Applied next before outcomes after) (closing : before.Closing ticket)
    (here : next.ticket? = some ticket → next.ends = true) : after.Closing ticket := by
  cases applied with
  | nothing => exact closing.proceed next here
  | batch now plan outcomes after gathered covers ran =>
    exact ran.closing ⟨closing.queued, closing.underway, closing.answered⟩ here

theorem Turned.closing (turned : Turned before outcomes after) (closing : before.Closing ticket) :
    after.Closing ticket := by
  have shorter {command : Command} {rest : List Command} (first : before.mailbox = command :: rest) :
      ({ before with mailbox := rest } : Scheduler).Closing ticket := by
    refine ⟨fun other member => ?_, closing.underway, closing.answered⟩
    exact closing.queued other (first ▸ List.mem_cons_of_mem _ member)
  cases turned with
  | rests => exact closing
  | skips rest ready first => exact shorter first
  | gathers now changes rest ready first =>
    exact ⟨(shorter first).queued, closing.underway, closing.answered⟩
  | obeys command rest next outcomes after ready first follows applied =>
    apply applied.closing (shorter first)
    have last := closing.queued command (first ▸ List.mem_cons_self)
    simpa [Command.ticket?, Command.ends, follows] using last
  | closes outcomes after free applied => exact applied.closing closing fun named => by cases named
  | resumes waiting outcomes after held ran => exact ran.closing closing (closing.underway waiting held)

/-- A scheduler that has stopped begins no batch. -/
theorem Turned.stays_shut {trace : Trace σ} {machine : Machine σ}
    (turned : Turned trace.machine.scheduler outcomes machine.scheduler) (aligned : trace.Aligned)
    (drained : trace.machine.scheduler.Drained) (closed : trace.machine.scheduler.accepting = false) :
    trace.note machine outcomes = { trace with machine } ∧ machine.scheduler.accepting = false := by
  obtain ⟨-, free, empty⟩ := drained.shut closed
  generalize shape : machine.scheduler = after at turned
  have refused (ready : trace.machine.scheduler.accepting = true ∧ trace.machine.scheduler.waiting = none) : False :=
    absurd (ready.1.symm.trans closed) nofun
  cases turned with
  | rests => exact ⟨Trace.note_quiet aligned (fun _ => empty) (shape ▸ rfl), closed⟩
  | skips rest ready => exact (refused ready).elim
  | gathers now changes rest ready => exact (refused ready).elim
  | obeys command rest next outcomes after ready => exact (refused ready).elim
  | closes outcomes after _ applied =>
    subst shape
    rcases applied.noted aligned rfl rfl with ⟨-, same, noted⟩ | ⟨now, plan, gathered, -⟩
    · rw [same, Scheduler.accepting_proceed, closed]
      exact ⟨noted, rfl⟩
    · exact absurd empty gathered
  | resumes waiting outcomes after held => exact absurd (free.symm.trans held) nofun

end

/-! ### Runs -/

namespace Trace

section
variable (regenerator : Regenerator σ) {trace : Trace σ}

/-- What turns and requests keep is kept throughout a run. -/
theorem run_keeps (property : Trace σ → Prop)
    (turn : ∀ now trace kind, property trace → property (trace.turn regenerator now kind))
    (alter : ∀ trace workspace own, property trace →
      property { trace with machine := { trace.machine with workspace, own } })
    (push : ∀ trace command nextTicket, property trace → trace.machine.scheduler.accepting = true →
      trace.machine.scheduler.nextTicket ≤ nextTicket →
      (∀ ticket, command.ticket? = some ticket →
        ticket = trace.machine.scheduler.nextTicket ∧ ticket < nextTicket) →
      property (trace.push command nextTicket))
    (actions : List (Timestamp × Action σ)) (valid : property trace) : property (trace.run regenerator actions) := by
  induction actions generalizing trace with
  | nil => exact valid
  | cons entry rest ih =>
    obtain ⟨now, action⟩ := entry
    apply ih
    have asks (command : Command) {nextTicket : Ticket} (next : trace.machine.scheduler.nextTicket ≤ nextTicket)
        (tickets : ∀ ticket, command.ticket? = some ticket →
          ticket = trace.machine.scheduler.nextTicket ∧ ticket < nextTicket) :
        property (if trace.machine.scheduler.accepting then trace.push command nextTicket else trace) := by
      split
      next accepting => exact push trace command nextTicket valid accepting next tickets
      next => exact valid
    cases action with
    | submit changes =>
      rw [step_submit]
      exact asks (.submit changes) (Nat.le_refl _) nofun
    | flush =>
      rw [step_flush]
      apply asks (.flush _) (Nat.le_succ _)
      rintro ticket ⟨⟩
      exact ⟨rfl, Nat.lt_succ_self _⟩
    | shutdown =>
      rw [step_shutdown]
      apply asks (.shutdown _) (Nat.le_succ _)
      rintro ticket ⟨⟩
      exact ⟨rfl, Nat.lt_succ_self _⟩
    | hangUp =>
      rw [step_hangUp]
      exact asks .hangUp (Nat.le_refl _) nofun
    | alter workspace own => exact alter trace workspace own valid
    | turn kind => exact turn now trace kind valid
    | settle => exact settle_keeps regenerator now turn valid
    | advance target => exact advance_keeps regenerator now turn valid target

/-- No ticket that may still be given out is in use. -/
def Unused (trace : Trace σ) : Prop :=
  ∀ ticket, trace.machine.scheduler.nextTicket ≤ ticket → trace.machine.scheduler.Closing ticket

private theorem closing_push {ticket : Ticket} (closing : trace.machine.scheduler.Closing ticket) (command : Command)
    (nextTicket : Ticket) (named : command.ticket? = some ticket → command.ends = true) :
    (trace.push command nextTicket).machine.scheduler.Closing ticket := by
  refine ⟨fun other member asked => ?_, closing.underway, closing.answered⟩
  rcases List.mem_append.mp member with older | new
  · exact closing.queued other older asked
  · rw [List.mem_singleton.mp new] at asked ⊢
    exact named asked

theorem run_drained (drained : trace.machine.scheduler.Drained) (actions : List (Timestamp × Action σ)) :
    (trace.run regenerator actions).machine.scheduler.Drained := by
  apply run_keeps regenerator (fun trace => trace.machine.scheduler.Drained) ?_ ?_ ?_ actions drained
  · intro now trace kind drained
    rw [machine_turn]
    exact (Machine.turn_turned regenerator now trace.machine kind).drained drained
  · exact fun trace workspace own drained => drained
  · intro trace command nextTicket drained accepting _ _
    exact ⟨drained.busy, fun closed => absurd (accepting.symm.trans closed) nofun⟩

theorem run_unused (unused : trace.Unused) (actions : List (Timestamp × Action σ)) :
    (trace.run regenerator actions).Unused := by
  apply run_keeps regenerator Unused ?_ ?_ ?_ actions unused
  · intro now trace kind unused ticket new
    have turned := Machine.turn_turned regenerator now trace.machine kind
    rw [machine_turn] at new ⊢
    exact turned.closing (unused ticket (turned.nextTicket ▸ new))
  · exact fun trace workspace own unused => unused
  · intro trace command nextTicket unused _ next tickets ticket new
    apply closing_push (unused ticket (Nat.le_trans next new)) command nextTicket
    exact fun named => absurd (tickets ticket named).2 (Nat.not_lt.mpr new)

/-- A ticket that was given to a request to stop is given to no other. -/
theorem run_closing {ticket : Ticket} (given : ticket < trace.machine.scheduler.nextTicket)
    (closing : trace.machine.scheduler.Closing ticket) (actions : List (Timestamp × Action σ)) :
    (trace.run regenerator actions).machine.scheduler.Closing ticket := by
  have kept := run_keeps regenerator
    (fun trace => ticket < trace.machine.scheduler.nextTicket ∧ trace.machine.scheduler.Closing ticket)
    ?_ ?_ ?_ actions ⟨given, closing⟩
  · exact kept.2
  · rintro now trace kind ⟨given, closing⟩
    have turned := Machine.turn_turned regenerator now trace.machine kind
    rw [machine_turn, turned.nextTicket]
    exact ⟨given, turned.closing closing⟩
  · exact fun trace workspace own valid => valid
  · rintro trace command nextTicket ⟨given, closing⟩ _ next tickets
    refine ⟨Nat.lt_of_lt_of_le given next, closing_push closing command nextTicket fun named => ?_⟩
    exact absurd (tickets ticket named).1 (Nat.ne_of_lt given)

theorem shutdown_closing (now : Timestamp) (unused : trace.Unused) (accepting : trace.machine.scheduler.accepting = true)
    (actions : List (Timestamp × Action σ)) :
    (trace.run regenerator ((now, .shutdown) :: actions)).machine.scheduler.Closing
      trace.machine.scheduler.nextTicket := by
  have asked : trace.step regenerator now .shutdown =
      trace.push (.shutdown trace.machine.scheduler.nextTicket) (trace.machine.scheduler.nextTicket + 1) := by
    rw [step_shutdown, if_pos accepting]
  rw [run, asked]
  apply run_closing regenerator (Nat.lt_succ_self _)
  exact closing_push (unused _ (Nat.le_refl _)) (.shutdown _) _ (fun _ => rfl)

structure Stopped (rounds : List Round) (trace : Trace σ) : Prop where
  aligned : trace.Aligned
  drained : trace.machine.scheduler.Drained
  closed : trace.machine.scheduler.accepting = false
  finished : trace.finished = rounds

theorem run_stopped {rounds : List Round} (stopped : trace.Stopped rounds) (actions : List (Timestamp × Action σ)) :
    (trace.run regenerator actions).Stopped rounds := by
  apply run_keeps regenerator (Stopped rounds) ?_ ?_ ?_ actions stopped
  · intro now trace kind stopped
    have turned := Machine.turn_turned regenerator now trace.machine kind
    obtain ⟨noted, closed⟩ := turned.stays_shut stopped.aligned stopped.drained stopped.closed
    refine ⟨(turn_follows regenerator now stopped.aligned kind).aligned, ?_, ?_, ?_⟩
    · rw [machine_turn]
      exact turned.drained stopped.drained
    · rw [machine_turn]
      exact closed
    · rw [turn, noted]
      exact stopped.finished
  · exact fun trace workspace own stopped => ⟨stopped.aligned, stopped.drained, stopped.closed, stopped.finished⟩
  · intro trace command nextTicket stopped accepting
    exact absurd (accepting.symm.trans stopped.closed) nofun

/-- Each of the lists is in one finished batch as a whole, and no batch has anything else. -/
def Applies (lists : List (List Change)) (trace : Trace σ) : Prop :=
  ∃ groups : List (List (List Change)), trace.finished.map (·.changes) = groups.map List.flatten ∧
    groups.flatten = lists

/-- What is left once a scheduler has stopped is batches, and all that was handed in early is in them. -/
theorem Portioned.stopped {lists : List (List Change)} (portioned : trace.Portioned lists) (aligned : trace.Aligned)
    (drained : trace.machine.scheduler.Drained) (closed : trace.machine.scheduler.accepting = false) :
    trace.Applies lists := by
  obtain ⟨groups, gathered, batches, pending, some, order⟩ := portioned
  obtain ⟨-, free, empty⟩ := drained.shut closed
  have nothing : gathered = [] := by
    rw [empty] at pending
    refine List.eq_nil_iff_forall_not_mem.mpr fun list member => some ?_
    rw [← List.flatten_eq_nil_iff.mp pending.symm list member]
    exact member
  refine ⟨groups, ?_, ?_⟩
  · simpa [Trace.batches, aligned.current_none free] using batches
  · simpa [nothing, Scheduler.portions, Scheduler.stopping, closed] using order

private theorem Applies.changes {lists : List (List Change)} (applies : trace.Applies lists) :
    (trace.finished.map (·.changes)).flatten = lists.flatten := by
  obtain ⟨groups, batches, order⟩ := applies
  rw [batches, ← order, List.flatten_flatten]

/-- Batches have no room for another list with changes. -/
theorem Applies.append_iff {lists : List (List Change)} (applies : trace.Applies lists)
    {others : List (List Change)} (some : [] ∉ others) : trace.Applies (lists ++ others) ↔ others = [] := by
  constructor
  · intro more
    have same := more.changes.symm.trans applies.changes
    rw [List.flatten_append] at same
    have nothing := List.flatten_eq_nil_iff.mp (List.append_right_eq_self.mp same)
    exact List.eq_nil_iff_forall_not_mem.mpr fun list member => some (nothing list member ▸ member)
  · rintro rfl
    rwa [List.append_nil]

/-! ### What is taken -/

/-- The lists with changes that are taken, of those that are handed in. -/
def taken (trace : Trace σ) : List (Timestamp × Action σ) → List (List Change)
  | [] => []
  | (now, action) :: rest =>
    (if (trace.machine.scheduler.send (.submit action.changes)).isOk then portion action.changes else []) ++
      taken (trace.step regenerator now action) rest

private theorem taken_append (first second : List (Timestamp × Action σ)) :
    trace.taken regenerator (first ++ second) =
      trace.taken regenerator first ++ (trace.run regenerator first).taken regenerator second := by
  induction first generalizing trace with
  | nil => rfl
  | cons entry rest ih => simp only [List.cons_append, taken, run, ih, List.append_assoc]

private theorem nil_not_mem_taken (actions : List (Timestamp × Action σ)) : [] ∉ trace.taken regenerator actions := by
  induction actions generalizing trace with
  | nil => exact List.not_mem_nil
  | cons entry rest ih =>
    rw [taken, List.mem_append, not_or]
    refine ⟨?_, ih⟩
    split
    · exact nil_not_mem_portion _
    · exact List.not_mem_nil

/-- As long as nobody asks the scheduler to stop, it takes every list. -/
theorem taken_of_free (aligned : trace.Aligned) (going : trace.machine.scheduler.ending = false)
    {actions : List (Timestamp × Action σ)} (free : actions.any (·.2.ends) = false) :
    trace.taken regenerator actions = portions actions := by
  induction actions generalizing trace with
  | nil => rfl
  | cons entry rest ih =>
    obtain ⟨now, action⟩ := entry
    rw [List.any_cons, Bool.or_eq_false_iff] at free
    have goes := step_goes regenerator now aligned action
    have accepting : trace.machine.scheduler.accepting = true := by
      simpa [Scheduler.stopping] using (Bool.or_eq_false_iff.mp (Bool.or_eq_false_iff.mp going).1).1
    have later := ih goes.aligned (by rw [goes.ending, going, free.1]; rfl) free.2
    simp [taken, later, portions, Scheduler.send, accepting, Except.isOk, Except.toBool]

end

theorem start_drained (settings : Settings) (workspace : Workspace) (own : σ) :
    (start settings workspace own).machine.scheduler.Drained := by
  constructor <;> simp [start, Scheduler.new]

theorem start_accepting {settings : Settings} {workspace : Workspace} {own : σ} (regenerator : Regenerator σ)
    {actions : List (Timestamp × Action σ)} (free : actions.any (·.2.ends) = false) :
    ((start settings workspace own).run regenerator actions).machine.scheduler.accepting = true := by
  have aligned : (start settings workspace own).Aligned := rfl
  have ending := (run_goes regenerator aligned actions).ending
  rw [free] at ending
  have going := (Bool.or_eq_false_iff.mp ending).1
  simpa [Scheduler.stopping] using (Bool.or_eq_false_iff.mp going).1

theorem start_unused (settings : Settings) (workspace : Workspace) (own : σ) :
    (start settings workspace own).Unused := by
  intro ticket _
  constructor <;> simp [start, Scheduler.new]

end Trace

/-- However requests come in around a request to stop, and whatever the regenerator does: all that is handed in before
it is taken. Once it is answered, each list with changes from before is in one batch as a whole, and only there, so
that all lists that were taken are in batches exactly when none was taken in between. From then on the scheduler takes
nothing and begins nothing. -/
theorem run_shuts_down (settings : Settings) (regenerator : Regenerator σ) (workspace : Workspace) (own : σ)
    (before during later : List (Timestamp × Action σ)) (now : Timestamp)
    (first : before.any (·.2.ends) = false) :
    let start := Trace.start settings workspace own
    let asked := start.run regenerator before
    let resolved := asked.run regenerator ((now, .shutdown) :: during)
    (∀ earlier time changes rest, before = earlier ++ (time, .submit changes) :: rest →
      ((start.run regenerator earlier).machine.scheduler.send (.submit changes)).isOk = true) ∧
    ∃ ticket, (Action.shutdown : Action σ).ticket? asked.machine.scheduler = some ticket ∧
      (ticket ∈ resolved.machine.scheduler.acknowledged →
        resolved.current = none ∧ resolved.Applies (portions before) ∧
        (resolved.Applies (start.taken regenerator (before ++ (now, .shutdown) :: during)) ↔
          asked.taken regenerator ((now, .shutdown) :: during) = []) ∧
        (∀ changes, (resolved.run regenerator later).machine.scheduler.send (.submit changes) = .error .closed) ∧
        (resolved.run regenerator later).finished = resolved.finished) := by
  intro start asked resolved
  have whole : resolved = start.run regenerator (before ++ (now, .shutdown) :: during) :=
    (Trace.run_append regenerator before _).symm
  have fresh : start.Aligned := rfl
  have accepting : asked.machine.scheduler.accepting = true := Trace.start_accepting regenerator first
  refine ⟨?_, asked.machine.scheduler.nextTicket, ?_, fun answered => ?_⟩
  · rintro earlier time changes rest rfl
    rw [List.any_append, Bool.or_eq_false_iff] at first
    simp [Scheduler.send, start, Trace.start_accepting regenerator first.1, Except.isOk, Except.toBool]
  · simp [Action.ticket?, Scheduler.ask, Scheduler.send, accepting, Except.map, Except.toOption]
  have aligned : resolved.Aligned := whole ▸ (Trace.run_goes regenerator fresh _).aligned
  have drained : resolved.machine.scheduler.Drained :=
    whole ▸ Trace.run_drained regenerator (Trace.start_drained settings workspace own) _
  have portioned : resolved.Portioned (portions before) := by
    have started := Trace.run_portioned regenerator fresh (Trace.start_portioned settings workspace own)
      (before ++ (now, .shutdown) :: during)
    rw [earlyPortions_of_end first rfl, ← whole] at started
    exact started
  have unused : asked.Unused := Trace.run_unused regenerator (Trace.start_unused settings workspace own) before
  have closing : resolved.machine.scheduler.Closing asked.machine.scheduler.nextTicket :=
    Trace.shutdown_closing regenerator now unused accepting during
  have closed := closing.answered answered
  have stopped : (resolved.run regenerator later).Stopped resolved.finished :=
    Trace.run_stopped regenerator ⟨aligned, drained, closed, rfl⟩ later
  have applies := portioned.stopped aligned drained closed
  refine ⟨aligned.current_none (drained.shut closed).2.1, applies, ?_, ?_, stopped.finished⟩
  · rw [Trace.taken_append, Trace.taken_of_free regenerator fresh rfl first]
    exact applies.append_iff (Trace.nil_not_mem_taken regenerator _)
  · intro changes
    simp [Scheduler.send, stopped.closed]

def edited (name : String) : Change :=
  { path := ⟨name⟩, kind := .modified, timestamp := .epoch }

def quick : Settings where
  maxIncrementalFiles := 0

def sluggish : Script where
  steps := [{ delay := 1000 }]

def handing : List (Timestamp × Action Script) :=
  [(.epoch, .submit [edited "a"]), (.epoch, .submit [edited "b", edited "c"]), (.epoch, .submit []), (.epoch, .settle)]

/-- The scheduler is asked to stop, and half a second later there is another change. -/
def overlapping : List (Timestamp × Action Script) :=
  [(.epoch, .settle), (Timestamp.epoch.addMillis 500, .submit [edited "d"]),
    (Timestamp.epoch.addMillis 500, .settle), (Timestamp.epoch.addMillis 1000, .settle)]

theorem sluggish_shuts_down :
    let start := Trace.start quick (.ofFiles (.empty []) {} {}) sluggish
    let asked := start.run Script.regenerator handing
    let resolved := asked.run Script.regenerator ((.epoch, .shutdown) :: overlapping)
    let later := resolved.run Script.regenerator handing
    handing.any (·.2.ends) = false ∧ 0 ∈ resolved.machine.scheduler.acknowledged ∧
      resolved.current = none ∧ resolved.Applies (portions handing) ∧
      (resolved.Applies (start.taken Script.regenerator (handing ++ (.epoch, .shutdown) :: overlapping)) ↔
        asked.taken Script.regenerator ((.epoch, .shutdown) :: overlapping) = []) ∧
      (∀ changes, later.machine.scheduler.send (.submit changes) = .error .closed) ∧
      later.finished = resolved.finished := by
  obtain ⟨-, ticket, named, stops⟩ := run_shuts_down quick Script.regenerator (.ofFiles (.empty []) {} {}) sluggish
    handing overlapping handing .epoch rfl
  intro start asked resolved later
  have first : (Action.shutdown : Action Script).ticket? asked.machine.scheduler = some 0 := by decide +kernel
  have answered : 0 ∈ resolved.machine.scheduler.acknowledged := by decide +kernel
  simp only [later, resolved, asked, start] at first answered ⊢
  rw [first] at named
  cases named
  exact ⟨rfl, answered, stops answered⟩

/-- A list that comes while the last batch is being applied is taken, and yet it is in no batch once the request to
stop is answered. -/
theorem overlapping_list_not_applied :
    let start := Trace.start quick (.ofFiles (.empty []) {} {}) sluggish
    let asked := start.run Script.regenerator handing
    let resolved := asked.run Script.regenerator ((.epoch, .shutdown) :: overlapping)
    asked.taken Script.regenerator ((.epoch, .shutdown) :: overlapping) = [[edited "d"]] ∧
      0 ∈ resolved.machine.scheduler.acknowledged ∧ resolved.current.isNone = true ∧
      resolved.finished.map (·.changes) = [[edited "a", edited "b", edited "c"]] :=
  ⟨by decide +kernel, by decide +kernel, by decide +kernel, by decide +kernel⟩

end FreshDocs.Batch
