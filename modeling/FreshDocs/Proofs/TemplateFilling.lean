import FreshDocs.Proofs.SectionDocuments

/-! What a template comes to when it is filled in. Read once, from left to right, a template is a row of placeholders
and of letters between them. It is filled in twice, first with titles and then with the content, and the second time
cannot tell a placeholder of the template from one that the titles have brought about. -/

namespace FreshDocs

/-! ### Occurrences of a text -/

namespace Text

/-- What is left of a text further on is no beginning of it, so that its occurrences never overlap. -/
def Unbordered (pattern : List Char) : Prop :=
  ∀ start < pattern.length, 0 < start → ¬ pattern.drop start <+: pattern

instance (pattern : List Char) : Decidable (Unbordered pattern) :=
  inferInstanceAs (Decidable (∀ start < pattern.length, _))

section
variable {pattern : List Char} (replacement : List Char)

private theorem replaceFrom_skip (skip : Nat) (text : List Char) :
    replaceFrom pattern replacement skip text = replaceFrom pattern replacement 0 (text.drop skip) := by
  induction text generalizing skip with
  | nil => simp [replaceFrom]
  | cons c rest ih =>
    cases skip with
    | zero => rfl
    | succ skip => exact ih skip

private theorem replaceFrom_pattern (filled : pattern ≠ []) (rest : List Char) :
    replaceFrom pattern replacement 0 (pattern ++ rest) = replacement ++ replaceFrom pattern replacement 0 rest := by
  obtain ⟨c, tail, rfl⟩ := List.exists_cons_of_ne_nil filled
  have starts : (c :: tail).isPrefixOf (c :: (tail ++ rest)) = true :=
    List.isPrefixOf_iff_prefix.mpr (List.prefix_append (c :: tail) rest)
  rw [List.cons_append, replaceFrom, if_pos starts, replaceFrom_skip]
  simp

theorem replaceFrom_of_elsewhere {c : Char} {rest : List Char} (elsewhere : ¬ pattern <+: c :: rest) :
    replaceFrom pattern replacement 0 (c :: rest) = c :: replaceFrom pattern replacement 0 rest := by
  rw [replaceFrom, if_neg (mt List.isPrefixOf_iff_prefix.mp elsewhere)]

private theorem replaceFrom_of_apart {kept : List Char} (apart : Apart kept pattern) (rest : List Char) :
    replaceFrom pattern replacement 0 (kept ++ rest) = kept ++ replaceFrom pattern replacement 0 rest :=
  @replaceFrom_passes pattern replacement kept apart 0 rest

/-- An occurrence that starts in front of another one ends in front of it. -/
theorem Unbordered.prefix_iff (unbordered : Unbordered pattern) {front : List Char} (some : front ≠ []) (rest : List Char) :
    pattern <+: front ++ (pattern ++ rest) ↔ pattern <+: front := by
  refine ⟨fun starts => ?_, fun starts => starts.trans (List.prefix_append _ _)⟩
  by_cases long : front.length < pattern.length
  · have tail := starts.drop front.length
    rw [List.drop_left] at tail
    have overlap : pattern.drop front.length <+: pattern :=
      List.prefix_of_prefix_length_le tail (List.prefix_append pattern rest) (by simp)
    exact (unbordered _ long (List.length_pos_iff.mpr some) overlap).elim
  · exact List.prefix_of_prefix_length_le starts (List.prefix_append front _) (Nat.le_of_not_lt long)

/-- Around an occurrence a text falls into two, each of which is dealt with by itself. -/
theorem replaceFrom_cut (unbordered : Unbordered pattern) (filled : pattern ≠ []) (front rest : List Char) {skip : Nat}
    (skipped : skip ≤ front.length) :
    replaceFrom pattern replacement skip (front ++ (pattern ++ rest)) =
      replaceFrom pattern replacement skip front ++ (replacement ++ replaceFrom pattern replacement 0 rest) := by
  induction front generalizing skip with
  | nil =>
    obtain rfl : skip = 0 := Nat.le_zero.mp skipped
    exact replaceFrom_pattern replacement filled rest
  | cons c front ih =>
    rw [List.cons_append]
    cases skip with
    | succ skip => exact ih (Nat.le_of_succ_le_succ skipped)
    | zero =>
      have same := unbordered.prefix_iff (List.cons_ne_nil c front) rest
      rw [List.cons_append] at same
      by_cases starts : pattern <+: c :: front
      · have inside : pattern.length - 1 ≤ front.length := by
          have short := starts.length_le
          rw [List.length_cons] at short
          omega
        rw [replaceFrom, if_pos (List.isPrefixOf_iff_prefix.mpr (same.mpr starts)), replaceFrom,
          if_pos (List.isPrefixOf_iff_prefix.mpr starts), ih inside, List.append_assoc]
      · rw [replaceFrom_of_elsewhere replacement (mt same.mp starts), replaceFrom_of_elsewhere replacement starts,
          ih (Nat.zero_le _), List.cons_append]

/-- Every occurrence changes the length by the same amount. -/
theorem length_replaceFrom (filled : pattern ≠ []) {skip : Nat} {text : List Char} (skipped : skip ≤ text.length) :
    (replaceFrom pattern replacement skip text).length + countFrom pattern skip text * pattern.length + skip =
      text.length + countFrom pattern skip text * replacement.length := by
  induction text generalizing skip with
  | nil =>
    obtain rfl : skip = 0 := Nat.le_zero.mp skipped
    simp [replaceFrom, countFrom]
  | cons c rest ih =>
    cases skip with
    | succ skip =>
      have later := ih (Nat.le_of_succ_le_succ skipped)
      simp only [replaceFrom, countFrom, List.length_cons]
      omega
    | zero =>
      rw [replaceFrom, countFrom]
      split
      next starts =>
        have short := (List.isPrefixOf_iff_prefix.mp starts).length_le
        have some := List.length_pos_iff.mpr filled
        rw [List.length_cons] at short
        have later := @ih (pattern.length - 1) (by omega)
        simp only [List.length_append, List.length_cons, Nat.add_one_mul]
        omega
      next =>
        have later := ih (Nat.zero_le _)
        simp only [List.length_cons]
        omega

private theorem replaceFrom_of_count_eq_zero {skip : Nat} {text : List Char} (none_there : countFrom pattern skip text = 0) :
    replaceFrom pattern replacement skip text = text.drop skip := by
  induction text generalizing skip with
  | nil => simp [replaceFrom]
  | cons c rest ih =>
    cases skip with
    | succ skip => exact ih none_there
    | zero =>
      rw [countFrom] at none_there
      split at none_there
      next => cases none_there
      next elsewhere => rw [replaceFrom, if_neg elsewhere, ih none_there, List.drop_zero, List.drop_zero]

end

private theorem countFrom_cut {pattern : List Char} (unbordered : Unbordered pattern) (filled : pattern ≠ []) (front rest : List Char) :
    countFrom pattern 0 (front ++ (pattern ++ rest)) = countFrom pattern 0 front + (1 + countFrom pattern 0 rest) := by
  -- what is left when all occurrences are taken out tells how many there were
  have whole := length_replaceFrom [] filled (Nat.zero_le (front ++ (pattern ++ rest)).length)
  have before := length_replaceFrom [] filled (Nat.zero_le front.length)
  have after := length_replaceFrom [] filled (Nat.zero_le rest.length)
  rw [replaceFrom_cut [] unbordered filled front rest (Nat.zero_le _)] at whole
  apply Nat.eq_of_mul_eq_mul_right (List.length_pos_iff.mpr filled)
  simp only [List.length_append, List.length_nil, Nat.add_mul, Nat.mul_zero] at whole before after ⊢
  omega

end Text

/-! ### The parts of a template -/

namespace Markdown

def titlePlace : String := openBraces ++ "title" ++ closeBraces
def contentPlace : String := openBraces ++ "content" ++ closeBraces

/-- A part of a template: a placeholder, or a letter that belongs to none. -/
inductive Piece where
  | letter (c : Char)
  | title
  | content
  deriving DecidableEq

def Piece.filled (title content : List Char) : Piece → List Char
  | .letter c => [c]
  | .title => title
  | .content => content

/-- The parts of a template from left to right. The first `skip` characters belong to a placeholder that was already
read. -/
def pieces : (skip : Nat) → List Char → List Piece
  | _, [] => []
  | skip + 1, _ :: rest => pieces skip rest
  | 0, c :: rest =>
    if titlePlace.toList.isPrefixOf (c :: rest) then .title :: pieces (titlePlace.toList.length - 1) rest
    else if contentPlace.toList.isPrefixOf (c :: rest) then .content :: pieces (contentPlace.toList.length - 1) rest
    else .letter c :: pieces 0 rest

/-- Fills in both at once: what is put in is not read again. -/
def fillOnce (template title content : String) : String :=
  String.ofList ((pieces 0 template.toList).flatMap (Piece.filled title.toList content.toList))

/-- A template, read part by part. -/
inductive Reads : List Char → List Piece → Prop where
  | nil : Reads [] []
  | title {rest : List Char} {parts : List Piece} (later : Reads rest parts) : Reads (titlePlace.toList ++ rest) (.title :: parts)
  | content {rest : List Char} {parts : List Piece} (later : Reads rest parts) :
      Reads (contentPlace.toList ++ rest) (.content :: parts)
  | letter {c : Char} {rest : List Char} {parts : List Piece} (untitled : ¬ titlePlace.toList <+: c :: rest)
      (empty : ¬ contentPlace.toList <+: c :: rest) (later : Reads rest parts) : Reads (c :: rest) (.letter c :: parts)

private theorem reads_pieces (skip : Nat) (text : List Char) : Reads (text.drop skip) (pieces skip text) := by
  -- What a placeholder leaves of the text that it starts.
  have left {place tail : List Char} {c : Char} {rest : List Char} (shape : place ++ tail = c :: rest) (some : place ≠ []) :
      rest.drop (place.length - 1) = tail := by
    obtain ⟨d, others, rfl⟩ := List.exists_cons_of_ne_nil some
    rw [← (List.cons.inj shape).2]
    exact List.drop_left
  induction text generalizing skip with
  | nil =>
    rw [List.drop_nil, pieces]
    exact .nil
  | cons c rest ih =>
    cases skip with
    | succ skip => exact ih skip
    | zero =>
      rw [List.drop_zero, pieces]
      simp only [List.isPrefixOf_iff_prefix]
      split
      next starts =>
        obtain ⟨tail, shape⟩ := starts
        have later := ih (titlePlace.toList.length - 1)
        rw [left shape (by decide)] at later
        exact shape ▸ .title later
      next untitled =>
        split
        next starts =>
          obtain ⟨tail, shape⟩ := starts
          have later := ih (contentPlace.toList.length - 1)
          rw [left shape (by decide)] at later
          exact shape ▸ .content later
        next empty => exact .letter untitled empty (ih 0)

section
variable {text : List Char} {parts : List Piece}

theorem Reads.spelled (reads : Reads text parts) :
    parts.flatMap (Piece.filled titlePlace.toList contentPlace.toList) = text := by
  induction reads with
  | nil => rfl
  | title later ih | content later ih | letter untitled empty later ih => rw [List.flatMap_cons, ih]; rfl

/-- In the text of a template a title is put in just for the placeholders that are read as such. -/
theorem Reads.titled (reads : Reads text parts) (title : List Char) :
    Text.replaceFrom titlePlace.toList title 0 text = parts.flatMap (Piece.filled title contentPlace.toList) := by
  induction reads with
  | nil => rfl
  | title later ih => rw [Text.replaceFrom_pattern title (by decide), ih, List.flatMap_cons, Piece.filled]
  | content later ih =>
    have apart : Text.Apart contentPlace.toList titlePlace.toList := by decide
    rw [Text.replaceFrom_of_apart title apart, ih, List.flatMap_cons, Piece.filled]
  | letter untitled empty later ih =>
    rw [Text.replaceFrom_of_elsewhere title untitled, ih, List.flatMap_cons, Piece.filled, List.singleton_append]

/-- So is a content, as long as the template is its own. -/
theorem Reads.supplied (reads : Reads text parts) (content : List Char) :
    Text.replaceFrom contentPlace.toList content 0 text = parts.flatMap (Piece.filled titlePlace.toList content) := by
  induction reads with
  | nil => rfl
  | title later ih =>
    have apart : Text.Apart titlePlace.toList contentPlace.toList := by decide
    rw [Text.replaceFrom_of_apart content apart, ih, List.flatMap_cons, Piece.filled]
  | content later ih => rw [Text.replaceFrom_pattern content (by decide), ih, List.flatMap_cons, Piece.filled]
  | letter untitled empty later ih =>
    rw [Text.replaceFrom_of_elsewhere content empty, ih, List.flatMap_cons, Piece.filled, List.singleton_append]

private theorem length_filled (title content : List Char) (parts : List Piece) :
    (parts.flatMap (Piece.filled title content)).length =
      (parts.flatMap (Piece.filled title [])).length + parts.count .content * content.length := by
  induction parts with
  | nil => simp
  | cons piece rest ih =>
    cases piece <;> simp [Piece.filled, Nat.add_mul, ih] <;> omega

/-- A template has as many places for a content as are read in it. -/
theorem Reads.count (reads : Reads text parts) : Text.countFrom contentPlace.toList 0 text = parts.count .content := by
  have taken := Text.length_replaceFrom [] (show contentPlace.toList ≠ [] by decide) (Nat.zero_le text.length)
  have spelled := length_filled titlePlace.toList contentPlace.toList parts
  rw [reads.spelled] at spelled
  rw [reads.supplied, spelled, List.length_nil] at taken
  apply Nat.eq_of_mul_eq_mul_right (show 0 < contentPlace.toList.length by decide)
  omega

end

private theorem unbordered_contentPlace : Text.Unbordered contentPlace.toList := by decide

/-- Titles take no place for the content away. Where they bring about none either, the content is put in just for those
of the template. -/
theorem supplied_titled (title content front : List Char) (parts : List Piece) :
    let titled := front ++ parts.flatMap (Piece.filled title contentPlace.toList)
    parts.count .content ≤ Text.countFrom contentPlace.toList 0 titled ∧
      (Text.countFrom contentPlace.toList 0 titled = parts.count .content →
        Text.replaceFrom contentPlace.toList content 0 titled = front ++ parts.flatMap (Piece.filled title content)) := by
  -- `front` is what stands between the place before and the parts that are left.
  induction parts generalizing front with
  | nil =>
    refine ⟨Nat.zero_le _, fun none_there => ?_⟩
    exact Text.replaceFrom_of_count_eq_zero content none_there
  | cons piece rest ih =>
    cases piece with
    | letter c => simpa [Piece.filled, List.count_cons] using ih (front ++ [c])
    | title => simpa [Piece.filled, List.count_cons] using ih (front ++ title)
    | content =>
      obtain ⟨least, exactly⟩ := ih []
      rw [List.nil_append] at least exactly
      have filled : contentPlace.toList ≠ [] := by decide
      dsimp only
      rw [List.flatMap_cons, Piece.filled, List.count_cons_self, Text.countFrom_cut unbordered_contentPlace filled]
      refine ⟨by omega, fun same => ?_⟩
      have clean : Text.countFrom contentPlace.toList 0 front = 0 := by omega
      rw [Text.replaceFrom_cut content unbordered_contentPlace filled front _ (Nat.zero_le _), exactly (by omega),
        Text.replaceFrom_of_count_eq_zero content clean]
      rfl

/-- Filling in one after the other is the same as filling in both at once if and only if the titles bring about no
further place for the content. -/
theorem fill_eq_fillOnce_iff (template title : String) {content : String}
    (other : content.toList.length ≠ contentPlace.toList.length) :
    fill template title content = fillOnce template title content ↔
      Text.count contentPlace (Text.replace titlePlace title template) = Text.count contentPlace template := by
  have reads := reads_pieces 0 template.toList
  rw [List.drop_zero] at reads
  have titled := reads.titled title.toList
  obtain ⟨least, exactly⟩ := supplied_titled title.toList content.toList [] (pieces 0 template.toList)
  rw [List.nil_append] at least exactly
  simp only [fill, fillOnce, Text.count, Text.replace, String.toList_ofList, String.ofList_inj]
  rw [reads.count]
  change Text.replaceFrom contentPlace.toList content.toList 0 (Text.replaceFrom titlePlace.toList title.toList 0 _) = _ ↔ _
  rw [titled]
  constructor
  · intro same
    have long := Text.length_replaceFrom content.toList (show contentPlace.toList ≠ [] by decide)
      (Nat.zero_le ((pieces 0 template.toList).flatMap (Piece.filled title.toList contentPlace.toList)).length)
    rw [same, length_filled title.toList content.toList, length_filled title.toList contentPlace.toList] at long
    obtain ⟨more, counted⟩ := Nat.exists_eq_add_of_le least
    rw [counted, Nat.add_mul, Nat.add_mul] at long
    have balanced : more * contentPlace.toList.length = more * content.toList.length := by omega
    have none_more : more = 0 := by
      rcases Nat.eq_zero_or_pos more with none_more | some
      · exact none_more
      · exact (other (Nat.eq_of_mul_eq_mul_left some balanced).symm).elim
    rw [counted, none_more, Nat.add_zero]
  · exact exactly

/-- No rendered body is as long as a placeholder: it is empty, or has a heading in it. -/
theorem length_body_ne (analyses : List Analysis) :
    (body analyses).toList.length ≠ contentPlace.toList.length := by
  have place : contentPlace.toList.length = 11 := by decide
  rw [place]
  cases analyses with
  | nil => decide
  | cons analysis rest =>
    have shown := (body_shows (List.mem_cons_self : analysis ∈ analysis :: rest)).length_le
    simp only [entry, String.toList_append, List.length_append] at shown
    have heading : "### `".toList.length = 5 := by decide
    have fence : "`\n\n```json\n".toList.length = 11 := by decide
    omega

/-- A section with a template is always rendered. Its document is the template with all placeholders filled in at once
if and only if putting in the section's id brings about no place for the content that the template does not have. -/
theorem template_fills_once_iff (markdown : Markdown) (part : Section) (analyses : List Analysis) (template : Template) :
    ∃ document, markdown.section? part analyses (some template) = .ok document ∧
      document.path = markdown.documentPath part.id ∧
      (document.content = fillOnce template.compiled part.id (body analyses) ↔
        Text.count contentPlace (Text.replace titlePlace part.id template.compiled) =
          Text.count contentPlace template.compiled) :=
  ⟨_, rfl, rfl, fill_eq_fillOnce_iff template.compiled part.id (length_body_ne analyses)⟩

/-- A section whose id is a place for the content, and a template that is accepted. The id is not put in as it is: its
place is taken by the content as well. -/
theorem id_taken_for_place :
    let template : Template := { path := ⟨"t.hbs"⟩, sourceDigest := .ofText "", compiled := titlePlace }
    compile template.path titlePlace = .ok template.compiled ∧
      ({} : Markdown).section? { id := contentPlace } [] (some template) =
        .ok { path := "docs/" ++ contentPlace ++ ".md", content := "" } ∧
      fillOnce template.compiled contentPlace (body []) = contentPlace ∧ contentPlace ≠ "" := by
  decide +kernel

end Markdown
end FreshDocs
