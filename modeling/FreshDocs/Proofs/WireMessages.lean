import FreshDocs.Proofs.JsonTexts
import FreshDocs.Proofs.TimestampTexts
import FreshDocs.Sync.Message

/-! Messages on the wire. A client reads the message that was written, and from an update the revision that was sent. -/

namespace FreshDocs

theorem Timestamp.ofJson?_toJson {t : Timestamp} (readable : t.Readable) : Timestamp.ofJson? (toJson t) = some t := by
  have text : (toJson t).string? = some t.toText := rfl
  rw [ofJson?, text, Option.bind_some, parse?_toText readable]

theorem Uuid.ofJson?_toJson (id : Uuid) : Uuid.ofJson? (toJson id) = some id := by
  have text : (toJson id).string? = some id.toText := rfl
  rw [ofJson?, text, Option.bind_some, parse?_toText]

theorem Digest.ofJson?_toJson (digest : Digest) : Digest.ofJson? (toJson digest) = some digest := by
  have text : (toJson digest).string? = some digest.toText := rfl
  rw [ofJson?, text, Option.bind_some, parse_toText]
  rfl

namespace Sync

theorem Scope.read?_toJson (scope : Scope) : Scope.read? (toJson scope) = some scope := by
  cases scope <;> rfl

theorem Origin.read?_toJson (origin : Origin) : Origin.read? (toJson origin) = some origin := by
  cases origin <;> rfl

theorem Message.Kind.read?_toJson (kind : Message.Kind) : Message.Kind.read? (toJson kind) = some kind := by
  cases kind <;> rfl

namespace Revision

theorem canonical_toJson (revision : Revision) : (toJson revision).canonical = .object
    [("checksum", toJson revision.checksum), ("content", toJson revision.content), ("id", toJson revision.id),
      ("path", toJson revision.path), ("scope", toJson revision.scope), ("source", toJson revision.origin),
      ("timestamp", toJson revision.timestamp)] :=
  rfl

private theorem read?_canonical {revision : Revision} (readable : revision.timestamp.Readable) :
    read? (toJson revision).canonical = some revision := by
  have path : Json.string? (toJson revision.path) = some revision.path := rfl
  have content : Json.string? (toJson revision.content) = some revision.content := rfl
  rw [canonical_toJson]
  simp [read?, Json.Fields.read?, Json.Fields.ofMembers?, fieldNames, Json.Fields.get?, Json.Fields.find?, path,
    content, Uuid.ofJson?_toJson, Digest.ofJson?_toJson, Timestamp.ofJson?_toJson readable, Scope.read?_toJson,
    Origin.read?_toJson]

private theorem whole_canonical (revision : Revision) : (toJson revision).canonical.Whole := by
  rw [canonical_toJson]
  refine .object fun member listed => ?_
  simp only [List.mem_cons, List.not_mem_nil, or_false] at listed
  rcases listed with rfl | rfl | rfl | rfl | rfl | rfl | rfl <;> exact .string _

private theorem depth_canonical (revision : Revision) : (toJson revision).canonical.depth = 1 := by
  rw [canonical_toJson]
  rfl

end Revision

namespace Message

theorem toJson_eq (message : Message) : toJson message = .object
    [("type", toJson message.kind), ("data", message.data), ("timestamp", toJson message.timestamp)] :=
  rfl

theorem whole_toJson {message : Message} (whole : message.data.Whole) : (toJson message).Whole := by
  refine .object fun member listed => ?_
  simp only [List.mem_cons, List.not_mem_nil, or_false] at listed
  rcases listed with rfl | rfl | rfl
  · exact .string _
  · exact whole
  · exact .string _

theorem read?_toJson {message : Message} (canonical : message.data.canonical = message.data)
    (readable : message.timestamp.Readable) : read? (toJson message) = some message := by
  rw [toJson_eq]
  simp [read?, Json.Fields.read?, Json.Fields.ofMembers?, Json.Fields.get?, Json.Fields.find?,
    Timestamp.ofJson?_toJson readable, Kind.read?_toJson, canonical]

/-- The message is around its payload, so it nests one deeper. -/
theorem depth_toJson (message : Message) : (toJson message).depth = message.data.depth + 1 := by
  have kind : (toJson message.kind).depth = 0 := rfl
  have timestamp : (toJson message.timestamp).depth = 0 := rfl
  simp [toJson_eq, Json.depth, Json.membersDepth, kind, timestamp]

theorem parse?_toText {message : Message} (canonical : message.data.canonical = message.data)
    (whole : message.data.Whole) (readable : message.timestamp.Readable) :
    parse? message.toText = if (toJson message).depth < Json.depthLimit then some message else none := by
  rw [parse?, toText, Json.parse?_compact (whole_toJson whole)]
  split
  · exact read?_toJson canonical readable
  · rfl

private theorem data_ofRevision (now : Timestamp) {revision : Revision} (readable : revision.timestamp.Readable) :
    ((Json.parse? (ofRevision now revision).toText).bind (·.member? "data")).bind Revision.read? = some revision := by
  have shallow : (toJson (ofRevision now revision)).depth < Json.depthLimit := by
    have payload : (ofRevision now revision).data.depth = 1 := revision.depth_canonical
    rw [depth_toJson, payload]
    decide
  have data : (toJson (ofRevision now revision)).member? "data" = some (toJson revision).canonical := by
    rw [toJson_eq]
    rfl
  have whole : (ofRevision now revision).data.Whole := revision.whole_canonical
  rw [toText, Json.parse?_compact (whole_toJson whole), if_pos shallow, Option.bind_some, data, Option.bind_some,
    Revision.read?_canonical readable]

/-- What is published is decoded: an update as the revision that it carries, and a message with whole numbers as itself,
unless it nests deeper than what is read at all. -/
theorem published_decoded (now : Timestamp) {revision : Revision} {message : Message}
    (revised : revision.timestamp.Readable) (canonical : message.data.canonical = message.data)
    (whole : message.data.Whole) (made : message.timestamp.Readable) :
    ((Json.parse? (ofRevision now revision).toText).bind (·.member? "data")).bind Revision.read? = some revision ∧
    parse? message.toText = if (toJson message).depth < Json.depthLimit then some message else none :=
  ⟨data_ofRevision now revised, parse?_toText canonical whole made⟩

/-- A revision with all kinds of characters, made in the last second of a leap year. -/
def accented : Revision :=
  .make .nil ⟨1735689599, 120000000, by decide⟩ .file "docs/\"ü\"\\\n\x01.md" "→ 🙂\t\x7f" .manual

def extremes : Message :=
  make ⟨-1, 999999999, by decide⟩ .queue
    (.object [("most", .integer (2 ^ 64 - 1)), ("least", .array [.integer (-2 ^ 63)])])

theorem extremes_decoded :
    accented.timestamp.Readable ∧ extremes.data.canonical = extremes.data ∧ extremes.data.Whole ∧
    extremes.timestamp.Readable ∧
    ((Json.parse? (ofRevision .epoch accented).toText).bind (·.member? "data")).bind Revision.read? = some accented ∧
    parse? extremes.toText = if (toJson extremes).depth < Json.depthLimit then some extremes else none := by
  have revised : accented.timestamp.Readable := Timestamp.readable_of_year (by decide) (by decide) (by decide)
  have canonical : extremes.data.canonical = extremes.data := rfl
  have whole : extremes.data.Whole := by
    have sorted : extremes.data =
        .object [("least", .array [.integer (-2 ^ 63)]), ("most", .integer (2 ^ 64 - 1))] := rfl
    rw [sorted]
    refine .object fun member listed => ?_
    simp only [List.mem_cons, List.not_mem_nil, or_false] at listed
    rcases listed with rfl | rfl
    · exact .array fun item listed => by
        rw [List.mem_singleton.mp listed]
        exact .integer (by decide) (by decide)
    · exact .integer (by decide) (by decide)
  have made : extremes.timestamp.Readable := Timestamp.readable_of_year (by decide) (by decide) (by decide)
  exact ⟨revised, canonical, whole, made, published_decoded .epoch revised canonical whole made⟩

end Message
end Sync
end FreshDocs
