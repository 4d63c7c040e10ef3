import FreshDocs.Json.Printer
import FreshDocs.Json.Reader
import FreshDocs.Proofs.DigitTexts
import Mathlib.Algebra.Order.Ring.Int
import Mathlib.Data.List.Basic

/-! Structured data that was written is read back. A reader takes from a text what was written at its start and leaves
the rest, as long as the rest cannot be taken for more of a number. -/

namespace FreshDocs.Json

/-! ### Quoted texts -/

private theorem unicodeEscape?_control {c : Char} (control : c.toNat < 32) (rest : List Char) :
    unicodeEscape? ('0' :: '0' :: Hex.digit (c.toNat / 16) :: Hex.digit (c.toNat % 16) :: rest) = some (c, rest) := by
  have zeros : Hex.number? ['0', '0'] = some 0 := by decide
  have high := Hex.number?_append_digit zeros (show c.toNat / 16 < 16 by omega)
  have digits := Hex.number?_append_digit high (Nat.mod_lt c.toNat (Nat.zero_lt_succ 15))
  rw [Nat.mul_zero, Nat.zero_add, Nat.div_add_mod] at digits
  have read : unit? ('0' :: '0' :: Hex.digit (c.toNat / 16) :: Hex.digit (c.toNat % 16) :: rest) =
      some (c.toNat, rest) := by
    simpa [unit?] using digits
  have single : ¬(56320 ≤ c.toNat) ∧ ¬(55296 ≤ c.toNat) := by omega
  simp [unicodeEscape?, read, single]

private theorem stringRest?_escape (fuel : Nat) (c : Char) (text : List Char) :
    stringRest? (fuel + 1) (escape c ++ text) =
      (stringRest? fuel text).map fun (chars, rest) => (c :: chars, rest) := by
  have same {code : Nat} (valid : c.toNat = code) : c = Char.ofNat code := by rw [← valid, Char.ofNat_toNat]
  rw [Option.map_eq_bind, Function.comp_def]
  fun_cases escape c with
  | case1 quote => simp [stringRest?, quote]
  | case2 _ backslash => simp [stringRest?, backslash]
  | case3 _ _ line => simp [stringRest?, line]
  | case4 _ _ _ back => simp [stringRest?, back]
  | case5 _ _ _ _ tab => simp [stringRest?, tab]
  | case6 _ _ _ _ _ erase => simp [stringRest?, same erase]
  | case7 _ _ _ _ _ _ feed => simp [stringRest?, same feed]
  | case8 _ _ _ _ _ _ _ control => simp [stringRest?, unicodeEscape?_control control]
  | case9 quote backslash _ _ _ _ _ plain =>
    rw [List.singleton_append, stringRest?, if_neg plain, Option.map_eq_bind]
    · rfl
    · exact quote
    · exact fun _ _ other => (backslash other).elim

private theorem stringRest?_escaped {fuel : Nat} {chars : List Char} (enough : chars.length < fuel) (rest : List Char) :
    stringRest? fuel (chars.flatMap escape ++ '"' :: rest) = some (chars, rest) := by
  induction chars generalizing fuel with
  | nil =>
    obtain ⟨fuel, rfl⟩ := Nat.exists_eq_succ_of_ne_zero (Nat.ne_of_gt enough)
    rfl
  | cons c others ih =>
    obtain ⟨fuel, rfl⟩ := Nat.exists_eq_succ_of_ne_zero (Nat.ne_zero_of_lt enough)
    have later := ih (Nat.lt_of_succ_lt_succ enough)
    rw [List.flatMap_cons, List.append_assoc, stringRest?_escape, later, Option.map_some]

private theorem length_escape (c : Char) : 1 ≤ (escape c).length := by
  fun_cases escape c <;> simp

/-- There are no more items than characters that they are spelled with, so the length of a text is enough fuel. -/
theorem length_lt_flatMap {α : Type} {spell : α → List Char} (items : List α)
    (filled : ∀ item, 1 ≤ (spell item).length) (c : Char) (rest : List Char) :
    items.length < (items.flatMap spell ++ c :: rest).length := by
  induction items with
  | nil => simp
  | cons item others ih =>
    have first := filled item
    rw [List.flatMap_cons, List.append_assoc, List.length_append, List.length_cons]
    omega

private theorem quoted?_quoted (text : String) (rest : List Char) : quoted? (quoted text ++ rest) = some (text, rest) := by
  have enough := Nat.lt_succ_of_lt (length_lt_flatMap text.toList length_escape '"' rest)
  simp only [quoted, List.cons_append, List.append_assoc, List.nil_append, quoted?]
  rw [stringRest?_escaped enough, Option.map_some, String.ofList_toList]

/-! ### Numbers -/

/-- No number that ends before the text can be taken for a longer one. -/
def Ends (rest : List Char) : Prop :=
  ∀ c ∈ rest.head?, c.isDigit = false ∧ c ≠ '.' ∧ c ≠ 'e' ∧ c ≠ 'E'

theorem Ends.takeWhile {rest : List Char} (ends : Ends rest) : rest.takeWhile Char.isDigit = [] := by
  cases rest with
  | nil => rfl
  | cons c others => simp [(ends c rfl).1]

theorem number?_digits {magnitude : Nat} {rest : List Char} (negative : Bool) (ends : Ends rest) :
    number? ((if negative then ['-'] else []) ++ (Nat.toDigits 10 magnitude ++ rest)) =
      if ¬negative ∧ magnitude < UInt64.size then some (.integer magnitude, rest)
      else if negative ∧ 0 < magnitude ∧ magnitude ≤ UInt64.size / 2 then some (.integer (-magnitude), rest)
      else (realOfParts? negative magnitude 0).map fun value => (.real value, rest) := by
  have whole : (Nat.toDigits 10 magnitude ++ rest).takeWhile Char.isDigit = Nat.toDigits 10 magnitude :=
    Text.takeWhile_digits Text.isDigit_of_toDigits ends.takeWhile
  obtain ⟨first, shape⟩ : ∃ first, (Nat.toDigits 10 magnitude).head? = some first := by
    simp [← Option.isSome_iff_exists]
  have single : (first = '0' ∧ 1 < (Nat.toDigits 10 magnitude).length) = False := by
    rw [eq_iff_iff, iff_false, not_and]
    rintro rfl
    simp [Text.toDigits_head shape]
  have unsigned : first ≠ '-' := by
    rintro rfl
    have numeric := Text.isDigit_of_toDigits _ (List.mem_of_mem_head? shape)
    simp at numeric
  cases rest with
  | nil =>
    rw [List.append_nil] at whole ⊢
    cases negative with
    | false => simp [number?, shape, unsigned, whole, single, Option.map_eq_bind]
    | true => simp [number?, shape, whole, single, Option.map_eq_bind]
  | cons c others =>
    obtain ⟨-, point, small, large⟩ := ends c rfl
    cases negative with
    | false =>
      simp [number?, shape, unsigned, whole, single, point, small, large, Option.map_eq_bind]
    | true => simp [number?, shape, whole, single, point, small, large, Option.map_eq_bind]

private theorem number?_integerText {value : Int} {rest : List Char} (least : -2 ^ 63 ≤ value) (most : value < 2 ^ 64)
    (ends : Ends rest) : number? (integerText value ++ rest) = some (.integer value, rest) := by
  have read := @number?_digits value.natAbs rest (value < 0) ends
  simp only [decide_eq_true_eq] at read
  rw [integerText, List.append_assoc, read, UInt64.size]
  by_cases negative : value < 0
  · have magnitude : -(value.natAbs : Int) = value := by omega
    rw [if_neg (by simp [negative]), if_pos ⟨negative, by omega, by omega⟩, magnitude]
  · have magnitude : (value.natAbs : Int) = value := by omega
    rw [if_pos ⟨negative, by omega⟩, magnitude]

/-! ### Values -/

/-- All numbers are whole and fit into 64 bits, with a sign or without. -/
inductive Whole : Json → Prop where
  | null : Whole .null
  | bool (value : Bool) : Whole (.bool value)
  | integer {value : Int} (least : -2 ^ 63 ≤ value) (most : value < 2 ^ 64) : Whole (.integer value)
  | string (text : String) : Whole (.string text)
  | array {items : List Json} (each : ∀ item ∈ items, Whole item) : Whole (.array items)
  | object {members : List (String × Json)} (each : ∀ member ∈ members, Whole member.2) : Whole (.object members)

mutual

def depth : Json → Nat
  | .array items => itemsDepth items + 1
  | .object members => membersDepth members + 1
  | _ => 0

def itemsDepth : List Json → Nat
  | [] => 0
  | item :: rest => max item.depth (itemsDepth rest)

def membersDepth : List (String × Json) → Nat
  | [] => 0
  | (_, value) :: rest => max value.depth (membersDepth rest)

end

private theorem depth_le_itemsDepth {items : List Json} : ∀ item ∈ items, item.depth ≤ itemsDepth items := by
  induction items with
  | nil => simp
  | cons first rest ih =>
    rw [List.forall_mem_cons, itemsDepth]
    exact ⟨Nat.le_max_left _ _, fun item member => Nat.le_trans (ih item member) (Nat.le_max_right _ _)⟩

private theorem depth_le_membersDepth {members : List (String × Json)} :
    ∀ member ∈ members, member.2.depth ≤ membersDepth members := by
  induction members with
  | nil => simp
  | cons first rest ih =>
    rw [List.forall_mem_cons, membersDepth]
    exact ⟨Nat.le_max_left _ _, fun member later => Nat.le_trans (ih member later) (Nat.le_max_right _ _)⟩

def nextItem (item : Json) : List Char :=
  ',' :: item.compactChars

def nextMember (member : String × Json) : List Char :=
  ',' :: (quoted member.1 ++ ':' :: member.2.compactChars)

private theorem compactItems_cons (item : Json) (rest : List Json) :
    compactItems (item :: rest) = item.compactChars ++ rest.flatMap nextItem := by
  induction rest generalizing item with
  | nil => simp [compactItems]
  | cons next others ih => simp [compactItems, ih, nextItem]

private theorem compactMembers_cons (name : String) (value : Json) (rest : List (String × Json)) :
    compactMembers ((name, value) :: rest) =
      quoted name ++ ':' :: value.compactChars ++ rest.flatMap nextMember := by
  induction rest generalizing name value with
  | nil => simp [compactMembers]
  | cons next others ih => simp [compactMembers, ih, nextMember]

private theorem integerText_head (value : Int) : ∃ c text, integerText value = c :: text ∧ (c = '-' ∨ c.isDigit = true) := by
  unfold integerText
  split
  · exact ⟨'-', _, rfl, .inl rfl⟩
  · obtain ⟨c, text, shape⟩ := List.exists_cons_of_ne_nil (@Nat.toDigits_ne_nil value.natAbs 10)
    exact ⟨c, text, shape, .inr (@Text.isDigit_of_toDigits value.natAbs c (by simp [shape]))⟩

private theorem ne_of_number {c other : Char} (number : c = '-' ∨ c.isDigit = true) (sign : other ≠ '-')
    (letter : other.isDigit = false) : c ≠ other := by
  rintro rfl
  rcases number with same | digit
  · exact sign same
  · simp [letter] at digit

/-- A value begins with a character that is neither blank nor ends an array. -/
theorem compactChars_head {value : Json} (whole : value.Whole) :
    ∃ c text, value.compactChars = c :: text ∧ isSpace c = false ∧ c ≠ ']' := by
  cases whole with
  | null => exact ⟨'n', _, rfl, rfl, by decide⟩
  | bool value => cases value with
    | true => exact ⟨'t', _, rfl, rfl, by decide⟩
    | false => exact ⟨'f', _, rfl, rfl, by decide⟩
  | @integer value =>
    obtain ⟨c, text, shape, number⟩ := integerText_head value
    have other {c' : Char} := @ne_of_number c c' number
    refine ⟨c, text, by simp [compactChars, scalarText, shape], ?_, other (by decide) rfl⟩
    simp [isSpace, @other ' ', @other '\n', @other '\r', @other '\t']
  | string text => exact ⟨'"', _, rfl, rfl, by decide⟩
  | array => exact ⟨'[', _, by rw [compactChars, List.cons_append], rfl, by decide⟩
  | object => exact ⟨'\x7b', _, by rw [compactChars, List.cons_append], rfl, by decide⟩

private theorem skipSpace_compactChars {value : Json} (whole : value.Whole) (rest : List Char) :
    skipSpace (value.compactChars ++ rest) = value.compactChars ++ rest := by
  obtain ⟨c, text, shape, solid, -⟩ := compactChars_head whole
  simp [shape, skipSpace, solid]

def Reads (item : List Char → Option (Json × List Char)) (value : Json) : Prop :=
  ∀ rest, Ends rest → item (value.compactChars ++ rest) = some (value, rest)

section
variable {item : List Char → Option (Json × List Char)} {fuel : Nat} {rest : List Char}

theorem ends_items (items : List Json) : Ends (items.flatMap nextItem ++ ']' :: rest) := by
  cases items <;> simp [Ends, nextItem]

theorem ends_members (members : List (String × Json)) : Ends (members.flatMap nextMember ++ '\x7d' :: rest) := by
  cases members <;> simp [Ends, nextMember]

private theorem itemsRest?_compact {items : List Json} (reads : ∀ value ∈ items, Reads item value)
    (enough : items.length < fuel) :
    itemsRest? item fuel (items.flatMap nextItem ++ ']' :: rest) = some (items, rest) := by
  induction items generalizing fuel with
  | nil =>
    obtain ⟨fuel, rfl⟩ := Nat.exists_eq_succ_of_ne_zero (Nat.ne_zero_of_lt enough)
    simp [itemsRest?, skipSpace, isSpace]
  | cons value others ih =>
    obtain ⟨fuel, rfl⟩ := Nat.exists_eq_succ_of_ne_zero (Nat.ne_zero_of_lt enough)
    obtain ⟨first, later⟩ := List.forall_mem_cons.mp reads
    have read := first _ (@ends_items rest others)
    simp [itemsRest?, nextItem, skipSpace, isSpace, read, ih later (Nat.lt_of_succ_lt_succ enough)]

theorem pair?_compact {name : String} {value : Json} (reads : Reads item value) (ends : Ends rest) :
    pair? item (quoted name ++ ':' :: value.compactChars ++ rest) = some ((name, value), rest) := by
  have solid (text : List Char) : skipSpace (quoted name ++ text) = quoted name ++ text := by
    simp [quoted, skipSpace, isSpace]
  rw [List.append_assoc, pair?, solid, quoted?_quoted]
  simp [skipSpace, isSpace, reads rest ends]

private theorem membersRest?_compact {members : List (String × Json)} (reads : ∀ member ∈ members, Reads item member.2)
    (enough : members.length < fuel) :
    membersRest? item fuel (members.flatMap nextMember ++ '\x7d' :: rest) = some (members, rest) := by
  induction members generalizing fuel with
  | nil =>
    obtain ⟨fuel, rfl⟩ := Nat.exists_eq_succ_of_ne_zero (Nat.ne_zero_of_lt enough)
    simp [membersRest?, skipSpace, isSpace]
  | cons member others ih =>
    obtain ⟨fuel, rfl⟩ := Nat.exists_eq_succ_of_ne_zero (Nat.ne_zero_of_lt enough)
    obtain ⟨first, later⟩ := List.forall_mem_cons.mp reads
    have read := @pair?_compact item _ member.1 member.2 first (@ends_members rest others)
    simp only [List.append_assoc, List.cons_append] at read
    simp [membersRest?, nextMember, skipSpace, isSpace, read, ih later (Nat.lt_of_succ_lt_succ enough)]

end

theorem value?_scalar {value : Json} (whole : value.Whole) (flat : value.depth = 0) (depth : Nat) :
    Reads (value? (depth + 1)) value := by
  intro rest ends
  cases whole with
  | null => rfl
  | bool value => cases value <;> rfl
  | @integer value least most =>
    obtain ⟨c, text, shape, number⟩ := integerText_head value
    have read := number?_integerText least most ends
    have other {c' : Char} := @ne_of_number c c' number
    have solid := skipSpace_compactChars (.integer least most) rest
    simp only [compactChars, scalarText, shape, List.cons_append] at read solid ⊢
    rw [value?, solid]
    simp [other, read]
  | string text =>
    have read := quoted?_quoted text rest
    simp only [quoted, List.cons_append, List.append_assoc, List.nil_append] at read
    simp [compactChars, scalarText, quoted, value?, skipSpace, isSpace, read]
  | array => cases flat
  | object => cases flat

private theorem value?_items {first : Json} (whole : first.Whole) (others : List Json) (depth : Nat) (rest : List Char) :
    value? (depth + 2) ((array (first :: others)).compactChars ++ rest) =
      (value? (depth + 1) (first.compactChars ++ (others.flatMap nextItem ++ ']' :: rest))).bind fun (first, rest) =>
        (itemsRest? (value? (depth + 1)) rest.length rest).map fun (others, rest) => (array (first :: others), rest) := by
  have opened (text : List Char) : skipSpace ('[' :: text) = '[' :: text := rfl
  obtain ⟨c, text, shape, -, inner⟩ := compactChars_head whole
  simp only [compactChars, compactItems_cons, List.cons_append, List.append_assoc, List.nil_append]
  rw [value?, opened]
  simp only [Char.reduceEq, if_false, if_true, skipSpace_compactChars whole, Option.map_eq_bind]
  rw [shape]
  split
  next outermost => cases outermost
  next closed _ => exact (inner (List.cons.inj closed).1).elim
  next => rfl

private theorem value?_members (name : String) (value : Json) (others : List (String × Json)) (depth : Nat) (rest : List Char) :
    value? (depth + 2) ((object ((name, value) :: others)).compactChars ++ rest) =
      (pair? (value? (depth + 1)) (quoted name ++ ':' :: value.compactChars ++
          (others.flatMap nextMember ++ '\x7d' :: rest))).bind fun (first, rest) =>
        (membersRest? (value? (depth + 1)) rest.length rest).map fun (others, rest) =>
          (object (first :: others), rest) := by
  have opened (text : List Char) : skipSpace ('\x7b' :: text) = '\x7b' :: text := rfl
  have spelled (text : List Char) : quoted name ++ text = '"' :: (name.toList.flatMap escape ++ '"' :: text) := by
    simp [quoted]
  have named (text : List Char) :
      skipSpace ('"' :: (name.toList.flatMap escape ++ '"' :: text)) = '"' :: (name.toList.flatMap escape ++ '"' :: text) :=
    rfl
  simp only [compactChars, compactMembers_cons, List.cons_append, List.append_assoc, List.nil_append]
  rw [value?, opened]
  simp only [Char.reduceEq, if_false, if_true, spelled, named, Option.map_eq_bind]
  split
  next outermost => cases outermost
  next closed _ => cases closed
  next => rfl

private theorem value?_array {items : List Json} {depth : Nat} (wholes : ∀ item ∈ items, item.Whole)
    (reads : ∀ item ∈ items, Reads (value? (depth + 1)) item) : Reads (value? (depth + 2)) (.array items) := by
  intro rest _
  cases items with
  | nil => rfl
  | cons first others =>
    obtain ⟨read, later⟩ := List.forall_mem_cons.mp reads
    have enough := @length_lt_flatMap _ nextItem others (fun _ => Nat.le_add_left 1 _) ']' rest
    rw [value?_items (wholes first List.mem_cons_self), read _ (ends_items others)]
    simp only [Option.bind_some, itemsRest?_compact later enough, Option.map_some]

private theorem value?_object {members : List (String × Json)} {depth : Nat}
    (reads : ∀ member ∈ members, Reads (value? (depth + 1)) member.2) :
    Reads (value? (depth + 2)) (.object members) := by
  intro rest _
  cases members with
  | nil => rfl
  | cons first others =>
    obtain ⟨read, later⟩ := List.forall_mem_cons.mp reads
    have enough := @length_lt_flatMap _ nextMember others (fun _ => Nat.le_add_left 1 _) '\x7d' rest
    rw [value?_members, pair?_compact read (ends_members others)]
    simp only [Option.bind_some, membersRest?_compact later enough, Option.map_some]

/-- A value is read where it was written, if what may still be opened is as much as it nests. -/
theorem value?_compactChars {value : Json} {depth : Nat} (whole : value.Whole) (shallow : value.depth ≤ depth) :
    Reads (value? (depth + 1)) value := by
  induction depth generalizing value with
  | zero => exact value?_scalar whole (Nat.le_zero.mp shallow) 0
  | succ depth ih =>
    cases whole with
    | array each =>
      rw [Json.depth, Nat.add_le_add_iff_right] at shallow
      exact value?_array each fun item member =>
        ih (each item member) (Nat.le_trans (depth_le_itemsDepth item member) shallow)
    | object each =>
      rw [Json.depth, Nat.add_le_add_iff_right] at shallow
      exact value?_object fun member listed =>
        ih (each member listed) (Nat.le_trans (depth_le_membersDepth member listed) shallow)
    | null => exact value?_scalar .null rfl _
    | bool value => exact value?_scalar (.bool value) rfl _
    | integer least most => exact value?_scalar (.integer least most) rfl _
    | string text => exact value?_scalar (.string text) rfl _

/-! ### Values that nest too deep -/

def Refuses (item : List Char → Option (Json × List Char)) (value : Json) : Prop :=
  ∀ rest, Ends rest → item (value.compactChars ++ rest) = none

private theorem exists_deep_item {items : List Json} {limit : Nat} (deep : limit < itemsDepth items) :
    ∃ item ∈ items, limit < item.depth := by
  induction items with
  | nil => cases deep
  | cons first rest ih =>
    have either : limit < first.depth ∨ limit < itemsDepth rest := by
      rw [itemsDepth] at deep
      omega
    rcases either with here | later
    · exact ⟨first, List.mem_cons_self, here⟩
    · obtain ⟨item, member, deeper⟩ := ih later
      exact ⟨item, List.mem_cons_of_mem _ member, deeper⟩

private theorem exists_deep_member {members : List (String × Json)} {limit : Nat} (deep : limit < membersDepth members) :
    ∃ member ∈ members, limit < member.2.depth := by
  induction members with
  | nil => cases deep
  | cons first rest ih =>
    have either : limit < first.2.depth ∨ limit < membersDepth rest := by
      rw [membersDepth] at deep
      omega
    rcases either with here | later
    · exact ⟨first, List.mem_cons_self, here⟩
    · obtain ⟨member, listed, deeper⟩ := ih later
      exact ⟨member, List.mem_cons_of_mem _ listed, deeper⟩

section
variable {item : List Char → Option (Json × List Char)} {rest : List Char}

private theorem itemsRest?_none {items : List Json} (each : ∀ value ∈ items, Reads item value ∨ Refuses item value)
    (some : ∃ value ∈ items, Refuses item value) (fuel : Nat) :
    itemsRest? item fuel (items.flatMap nextItem ++ ']' :: rest) = none := by
  induction items generalizing fuel with
  | nil => simp at some
  | cons value others ih =>
    cases fuel with
    | zero => rfl
    | succ fuel =>
      have refused (refuses : Refuses item value) :
          itemsRest? item (fuel + 1) ((value :: others).flatMap nextItem ++ ']' :: rest) = none := by
        simp [itemsRest?, nextItem, skipSpace, isSpace, refuses _ (@ends_items rest others)]
      rcases (List.exists_mem_cons_iff _ _ _).mp some with refuses | later
      · exact refused refuses
      rcases each value List.mem_cons_self with reads | refuses
      · have rest_none := ih (fun next member => each next (List.mem_cons_of_mem _ member)) later fuel
        simp [itemsRest?, nextItem, skipSpace, isSpace, reads _ (@ends_items rest others), rest_none]
      · exact refused refuses

private theorem pair?_none {name : String} {value : Json} (refuses : Refuses item value) (ends : Ends rest) :
    pair? item (quoted name ++ ':' :: value.compactChars ++ rest) = none := by
  have solid (text : List Char) : skipSpace (quoted name ++ text) = quoted name ++ text := by
    simp [quoted, skipSpace, isSpace]
  rw [List.append_assoc, pair?, solid, quoted?_quoted]
  simp [skipSpace, isSpace, refuses rest ends]

private theorem membersRest?_none {members : List (String × Json)}
    (each : ∀ member ∈ members, Reads item member.2 ∨ Refuses item member.2)
    (some : ∃ member ∈ members, Refuses item member.2) (fuel : Nat) :
    membersRest? item fuel (members.flatMap nextMember ++ '\x7d' :: rest) = none := by
  induction members generalizing fuel with
  | nil => simp at some
  | cons member others ih =>
    cases fuel with
    | zero => rfl
    | succ fuel =>
      have refused (refuses : Refuses item member.2) :
          membersRest? item (fuel + 1) ((member :: others).flatMap nextMember ++ '\x7d' :: rest) = none := by
        have none := @pair?_none item _ member.1 member.2 refuses (@ends_members rest others)
        simp only [List.append_assoc, List.cons_append] at none
        simp [membersRest?, nextMember, skipSpace, isSpace, none]
      rcases (List.exists_mem_cons_iff _ _ _).mp some with refuses | later
      · exact refused refuses
      rcases each member List.mem_cons_self with reads | refuses
      · have rest_none := ih (fun next listed => each next (List.mem_cons_of_mem _ listed)) later fuel
        have read := @pair?_compact item _ member.1 member.2 reads (@ends_members rest others)
        simp only [List.append_assoc, List.cons_append] at read
        simp [membersRest?, nextMember, skipSpace, isSpace, read, rest_none]
      · exact refused refuses

end

private theorem value?_array_none {items : List Json} {depth : Nat} (wholes : ∀ item ∈ items, item.Whole)
    (each : ∀ item ∈ items, Reads (value? (depth + 1)) item ∨ Refuses (value? (depth + 1)) item)
    (some : ∃ item ∈ items, Refuses (value? (depth + 1)) item) : Refuses (value? (depth + 2)) (.array items) := by
  intro rest _
  cases items with
  | nil => simp at some
  | cons first others =>
    have refused (refuses : Refuses (value? (depth + 1)) first) :
        value? (depth + 2) ((array (first :: others)).compactChars ++ rest) = none := by
      rw [value?_items (wholes first List.mem_cons_self), refuses _ (ends_items others), Option.bind_none]
    rcases (List.exists_mem_cons_iff _ _ _).mp some with refuses | later
    · exact refused refuses
    rcases each first List.mem_cons_self with read | refuses
    · have rest_none := @itemsRest?_none _ rest _ (fun item member => each item (List.mem_cons_of_mem _ member)) later
      rw [value?_items (wholes first List.mem_cons_self), read _ (ends_items others)]
      simp only [Option.bind_some, rest_none, Option.map_none]
    · exact refused refuses

private theorem value?_object_none {members : List (String × Json)} {depth : Nat}
    (each : ∀ member ∈ members, Reads (value? (depth + 1)) member.2 ∨ Refuses (value? (depth + 1)) member.2)
    (some : ∃ member ∈ members, Refuses (value? (depth + 1)) member.2) :
    Refuses (value? (depth + 2)) (.object members) := by
  intro rest _
  cases members with
  | nil => simp at some
  | cons first others =>
    have refused (refuses : Refuses (value? (depth + 1)) first.2) :
        value? (depth + 2) ((object (first :: others)).compactChars ++ rest) = none := by
      rw [value?_members, pair?_none refuses (ends_members others), Option.bind_none]
    rcases (List.exists_mem_cons_iff _ _ _).mp some with refuses | later
    · exact refused refuses
    rcases each first List.mem_cons_self with read | refuses
    · have rest_none :=
        @membersRest?_none _ rest _ (fun member listed => each member (List.mem_cons_of_mem _ listed)) later
      rw [value?_members, pair?_compact read (ends_members others)]
      simp only [Option.bind_some, rest_none, Option.map_none]
    · exact refused refuses

private theorem value?_deep {value : Json} {depth : Nat} (whole : value.Whole) (deep : depth < value.depth) :
    Refuses (value? (depth + 1)) value := by
  induction depth generalizing value with
  | zero =>
    intro rest _
    cases whole with
    | array => simp [compactChars, value?, skipSpace, isSpace]
    | object => simp [compactChars, value?, skipSpace, isSpace]
    | _ => cases deep
  | succ depth ih =>
    have each {value : Json} (whole : value.Whole) :
        Reads (value? (depth + 1)) value ∨ Refuses (value? (depth + 1)) value :=
      (Nat.lt_or_ge depth value.depth).symm.imp (value?_compactChars whole) (ih whole)
    cases whole with
    | array wholes =>
      obtain ⟨item, member, deeper⟩ := exists_deep_item (Nat.lt_of_succ_lt_succ deep)
      exact value?_array_none wholes (fun item member => each (wholes item member))
        ⟨item, member, ih (wholes item member) deeper⟩
    | object wholes =>
      obtain ⟨member, listed, deeper⟩ := exists_deep_member (Nat.lt_of_succ_lt_succ deep)
      exact value?_object_none (fun member listed => each (wholes member listed))
        ⟨member, listed, ih (wholes member listed) deeper⟩
    | _ => cases deep

/-- The text of a value is read exactly if the value does not nest too deep. -/
theorem parse?_compact {value : Json} (whole : value.Whole) :
    parse? value.compact = if value.depth < depthLimit then some value else none := by
  have ends : Ends [] := by simp [Ends]
  rw [parse?, compact, String.toList_ofList, depthLimit, ← List.append_nil value.compactChars]
  split
  next shallow =>
    rw [value?_compactChars whole (Nat.le_of_lt_succ shallow) [] ends]
    rfl
  next deep =>
    rw [value?_deep whole (Nat.lt_of_lt_of_le (Nat.lt_succ_self 127) (Nat.le_of_not_lt deep)) [] ends]
    rfl

end FreshDocs.Json
