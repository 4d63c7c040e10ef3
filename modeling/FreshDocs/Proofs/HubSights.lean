import FreshDocs.Proofs.HubRenaming

/-! What a hub shows of one document: the answers to requests about it, and the messages that carry it. Conflicts
are asked for by id, so it takes the ids that were drawn for the document to tell which requests are about it. -/

namespace FreshDocs.Sync

inductive Sight where
  | submitted (outcome : QueueOutcome)
  | resolved (answer : Except Error Revision)
  | sent (message : Message)

inductive Sight.Matches (names : Names) : Sight → Sight → Prop where
  | submitted {one two : QueueOutcome} (same : one.Matches names two) : Matches names (.submitted one) (.submitted two)
  | resolved {one two : Except Error Revision} (same : Answers names one two) : Matches names (.resolved one) (.resolved two)
  | handed (message : Message) : Matches names (.sent message) (.sent message)
  | passedOn (now : Timestamp) {one two : Revision} (same : one.Matches names two) :
      Matches names (.sent (.ofRevision now one)) (.sent (.ofRevision now two))

theorem Sight.Matches.mono {names more : Names} {one two : Sight} (same : one.Matches names two) (subset : names ⊆ more) :
    one.Matches more two := by
  cases same with
  | submitted same => exact .submitted (same.mono subset)
  | resolved same => exact .resolved (same.mono subset)
  | handed message => exact .handed message
  | passedOn now same => exact .passedOn now (same.mono subset)

namespace Hub
open Std

/-- Whether a request is about a document, when some ids are known to be those of its conflicts. -/
def Request.concerns (path : String) (known : List Uuid) : Request → Bool
  | .submit revision => decide (revision.path = path)
  | .resolve id _ => decide (id ∈ known)
  | _ => false

def Request.answer? (now : Timestamp) (hub : Hub) : Request → Option Sight
  | .submit revision => some (.submitted (hub.submit now revision).1)
  | .resolve id resolution => some (.resolved (hub.resolve now id resolution).1)
  | _ => none

def Request.sights (path : String) (known : List Uuid) (now : Timestamp) (hub : Hub) (request : Request) : List Sight :=
  (if request.concerns path known then (request.answer? now hub).toList else []) ++
    ((request.messages now hub).filter (·.subject? = some path)).map .sent

def Request.known (path : String) (known : List Uuid) (now : Timestamp) (hub : Hub) (request : Request) : List Uuid :=
  if request.concerns path known then known ++ (request.drawn? now hub).toList else known

/-- What shows of a document during some requests, in order. -/
def sights (path : String) (known : List Uuid) (hub : Hub) : List (Timestamp × Request) → List Sight
  | [] => []
  | (now, request) :: rest =>
    request.sights path known now hub ++ sights path (request.known path known now hub) (request.apply now hub) rest

/-! ### The ids of a document -/

/-- Some ids are those that were drawn for a document, as far as conflicts go. -/
structure Knows (path : String) (known : List Uuid) (hub : Hub) : Prop where
  drawn : ∀ id ∈ known, Drawn hub id
  about : ∀ id conflict, hub.conflicts[id]? = some conflict → (conflict.path = path ↔ id ∈ known)

section
variable {path : String} {known : List Uuid} {hub : Hub} {now : Timestamp} {request : Request} {id : Uuid} {count : Nat}

private theorem mem_known : id ∈ request.known path known now hub ↔
    id ∈ known ∨ request.concerns path known = true ∧ request.drawn? now hub = some id := by
  unfold Request.known
  split
  next about => rw [List.mem_append, Option.mem_toList, about, eq_self, true_and]
  next other => simp [other]

theorem Knows.apply (knows : Knows path known hub) (issued : Issued hub) (enough : (request.apply now hub).ids.next ≤ count)
    (distinct : hub.ids.Distinct count) : Knows path (request.known path known now hub) (request.apply now hub) := by
  constructor
  · intro id member
    rcases mem_known.mp member with old | ⟨-, new⟩
    · exact (knows.drawn id old).apply now request
    · exact (drawn?_new new enough distinct).2
  · intro id conflict present
    rw [mem_known]
    rcases conflict_origin present with ⟨old, there, place⟩ | ⟨revision, submitted, place, new⟩
    · have taken : request.drawn? now hub ≠ some id := fun new => (drawn?_new new enough distinct).1 (issued.drawn there)
      rw [← place, knows.about id old there]
      simp [taken]
    · have unknown : id ∉ known := fun old => (drawn?_new new enough distinct).1 (knows.drawn id old)
      rw [submitted] at new ⊢
      simp [place, unknown, new, Request.concerns]

end

/-! ### What shows of the document -/

section
variable {path : String} {known : List Uuid} {hub : Hub} {now : Timestamp}

theorem carried_of_quiet {request : Request} (drains : request ≠ .flush) (hands : ∀ message, request ≠ .broadcast message) :
    (request.messages now hub).filter (·.subject? = some path) = [] := by
  rw [List.filter_eq_nil_iff]
  intro message sent subject
  rcases subject_of_messages sent (of_decide_eq_true subject) with handed | ⟨drained, -⟩
  · exact hands message handed
  · exact drains drained

theorem sights_submit (revision : Revision) :
    (Request.submit revision).sights revision.path known now hub = [.submitted (hub.submit now revision).1] := by
  rw [Request.sights, carried_of_quiet (by simp) (by simp)]
  simp [Request.concerns, Request.answer?]

theorem sights_resolve {id : Uuid} (member : id ∈ known) (resolution : Resolution) :
    (Request.resolve id resolution).sights path known now hub = [.resolved (hub.resolve now id resolution).1] := by
  rw [Request.sights, carried_of_quiet (by simp) (by simp)]
  simp [Request.concerns, Request.answer?, member]

theorem sights_flush : Request.flush.sights path known now hub =
    (hub.lane path).flush.1.toList.map fun revision => .sent (.ofRevision now revision) := by
  rw [← (flush_lane hub now path).2]
  simp only [Request.sights, Request.concerns, Request.messages, Bool.false_eq_true, if_false, List.nil_append,
    List.filter_map, List.map_map]
  congr 1
  apply List.filter_congr
  intro revision _
  simp [Message.subject?_ofRevision]

end
end Hub
end FreshDocs.Sync
