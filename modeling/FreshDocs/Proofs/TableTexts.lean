import FreshDocs.Text.Csv
import Mathlib.Data.List.Basic

/-! Tables that were written are read back. The reader is the one that the format is defined for: it takes records apart
at the ends of lines and fields at commas, unless these stand in quotes. -/

namespace FreshDocs.Csv

/-! ### Reading -/

/-- A field in quotes after the first of them, and the rest. A quote that is written twice stands for one. -/
def quotedRest? : List Char → Option (List Char × List Char)
  | '"' :: '"' :: rest => (quotedRest? rest).map fun (chars, rest) => ('"' :: chars, rest)
  | '"' :: rest => some ([], rest)
  | c :: rest => (quotedRest? rest).map fun (chars, rest) => (c :: chars, rest)
  | [] => none

def isPlain (c : Char) : Bool :=
  c ≠ ',' && c ≠ '"' && c ≠ '\n' && c ≠ '\r'

def field? : List Char → Option (String × List Char)
  | '"' :: rest => (quotedRest? rest).map fun (chars, rest) => (String.ofList chars, rest)
  | text => some (String.ofList (text.takeWhile isPlain), text.dropWhile isPlain)

/-- The fields up to the end of a line or of the text. Every field but the first takes a comma, so `fuel` may be one
more than the length. A line ends with a line feed, which may have a carriage return before it. -/
def fields? : (fuel : Nat) → List Char → Option (List String × List Char)
  | 0, _ => none
  | fuel + 1, text => do
    let (first, rest) ← field? text
    match rest with
    | [] => some ([first], [])
    | ',' :: rest => (fields? fuel rest).map fun (others, rest) => (first :: others, rest)
    | '\n' :: rest => some ([first], rest)
    | '\r' :: '\n' :: rest => some ([first], rest)
    | _ => none

def records? : (fuel : Nat) → List Char → Option (List (List String))
  | _, [] => some []
  | 0, _ => none
  | fuel + 1, text => do
    let (first, rest) ← fields? (text.length + 1) text
    return first :: (← records? fuel rest)

def read? (text : String) : Option (List (List String)) :=
  records? text.length text.toList

/-! ### Reading what was written -/

private theorem quotedRest?_doubled (chars : List Char) {rest : List Char} (ends : rest.head? ≠ some '"') :
    quotedRest? (chars.flatMap doubled ++ '"' :: rest) = some (chars, rest) := by
  induction chars with
  | nil =>
    rw [List.flatMap_nil, List.nil_append, quotedRest?]
    rintro later rfl
    exact ends rfl
  | cons c others ih =>
    rw [List.flatMap_cons, List.append_assoc]
    by_cases quote : c = '"'
    · simp [doubled, quote, quotedRest?, ih]
    · rw [doubled, if_neg quote, List.singleton_append, quotedRest?, ih]
      · rfl
      · exact fun _ same => (quote same).elim
      · exact quote

private theorem isPlain_of_needsQuotes {chars : List Char} (free : needsQuotes chars = false) : ∀ c ∈ chars, isPlain c = true := by
  simpa [needsQuotes, isPlain, and_assoc] using free

private theorem field?_plain {text : List Char} (free : text.head? ≠ some '"') :
    field? text = some (String.ofList (text.takeWhile isPlain), text.dropWhile isPlain) := by
  rw [field?]
  rintro rest rfl
  exact free rfl

/-- A field ends where a comma or the end of its line follows. -/
theorem field?_field (text : String) {c : Char} (ends : c = ',' ∨ c = '\n') (rest : List Char) :
    field? (field text ++ c :: rest) = some (text, c :: rest) := by
  have apart : c ≠ '"' := by rcases ends with rfl | rfl <;> decide
  have stops : isPlain c = false := by rcases ends with rfl | rfl <;> rfl
  unfold field
  dsimp only
  split
  next =>
    rw [List.append_assoc, List.cons_append, field?, List.cons_append, List.nil_append,
      quotedRest?_doubled _ (by simpa using apart)]
    simp
  next free =>
    have plain := isPlain_of_needsQuotes (Bool.eq_false_iff.mpr free)
    have unquoted : (text.toList ++ c :: rest).head? ≠ some '"' := by
      cases chars : text.toList with
      | nil => simpa using apart
      | cons first others =>
        rintro ⟨⟩
        exact Bool.false_ne_true (plain '"' (by simp [chars]))
    rw [field?_plain unquoted, List.takeWhile_append_of_pos plain, List.dropWhile_append_of_pos plain]
    simp [stops]

private theorem fields?_fields {texts : List String} (some : texts ≠ []) {fuel : Nat} (enough : texts.length ≤ fuel)
    (rest : List Char) : fields? fuel (fields texts ++ '\n' :: rest) = .some (texts, rest) := by
  induction texts generalizing fuel with
  | nil => exact (some rfl).elim
  | cons first others ih =>
    obtain ⟨fuel, rfl⟩ := Nat.exists_eq_succ_of_ne_zero (Nat.ne_of_gt (Nat.lt_of_lt_of_le (Nat.succ_pos _) enough))
    cases others with
    | nil => simp [fields, fields?, field?_field first (.inr rfl)]
    | cons second later =>
      have read := ih (List.cons_ne_nil _ _) (Nat.le_of_succ_le_succ enough)
      have shape : fields (first :: second :: later) = field first ++ ',' :: fields (second :: later) := rfl
      rw [shape, List.append_assoc, List.cons_append, fields?, field?_field first (.inl rfl)]
      simp [read]

/-- There is a comma between any two fields. -/
theorem length_fields (texts : List String) : texts.length ≤ (fields texts).length + 1 := by
  fun_induction fields texts with
  | case1 => exact Nat.zero_le _
  | case2 last => exact Nat.succ_le_succ (Nat.zero_le _)
  | case3 first rest _ ih =>
    rw [List.length_append, List.length_cons, List.length_cons]
    omega

private theorem records?_records {records : List (List String)} (filled : ∀ texts ∈ records, texts ≠ []) {fuel : Nat}
    (enough : records.length ≤ fuel) : records? fuel (records.flatMap record) = some records := by
  induction records generalizing fuel with
  | nil => cases fuel <;> rfl
  | cons texts others ih =>
    obtain ⟨some, later⟩ := List.forall_mem_cons.mp filled
    obtain ⟨fuel, rfl⟩ := Nat.exists_eq_succ_of_ne_zero (Nat.ne_of_gt (Nat.lt_of_lt_of_le (Nat.succ_pos _) enough))
    have shape : (texts :: others).flatMap record = fields texts ++ '\n' :: others.flatMap record := by
      simp [record]
    have long : texts.length ≤ (fields texts ++ '\n' :: others.flatMap record).length + 1 := by
      have commas := length_fields texts
      rw [List.length_append]
      omega
    rw [shape, records?, fields?_fields some long]
    · simp [ih later (Nat.le_of_succ_le_succ enough)]
    · simp

/-- A table of records that have fields is taken apart into these. -/
theorem read?_table {records : List (List String)} (filled : ∀ texts ∈ records, texts ≠ []) :
    read? (table records) = some records := by
  have lines : records.length ≤ (records.flatMap record).length := by
    induction records with
    | nil => exact Nat.zero_le _
    | cons texts others ih =>
      have later := ih (List.forall_mem_cons.mp filled).2
      rw [List.flatMap_cons, List.length_append, record, List.length_append, List.length_cons, List.length_singleton]
      omega
  rw [read?, table, String.length_ofList, String.toList_ofList]
  exact records?_records filled lines

end FreshDocs.Csv
