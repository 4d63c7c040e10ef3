import FreshDocs.Proofs.DigitTexts
import Mathlib.Data.List.Induction

/-! Which texts are read as digests, and what is wrong with the others. Digits are judged by the bytes of a text, so that
a character of several bytes counts as several that are no digits. -/

namespace FreshDocs

namespace Text

private theorem toUTF8_eq_flatMap (text : String) : text.toUTF8.toList = text.toList.flatMap String.utf8EncodeChar := by
  have encoded : text.toUTF8 = text.toList.utf8Encode := by simp
  rw [toList_eq_data, encoded, List.utf8Encode, List.data_toByteArray]

private theorem toList_toLower (text : String) : text.toLower.toList = text.toList.map Char.toLower :=
  String.toList_map

private theorem length_toUTF8 (text : String) : text.toUTF8.toList.length = text.utf8ByteSize := by
  rw [toList_eq_data]
  simp

end Text

namespace Hex

def isDigit (c : Char) : Bool :=
  c.isDigit || 'a' ≤ c && c ≤ 'f' || 'A' ≤ c && c ≤ 'F'

/-! ### Digits -/

def IsCode (code : Nat) : Prop :=
  48 ≤ code ∧ code ≤ 57 ∨ 97 ≤ code ∧ code ≤ 102 ∨ 65 ≤ code ∧ code ≤ 70

private theorem isDigit_iff {c : Char} : isDigit c = true ↔ IsCode c.toNat := by
  simp only [isDigit, Char.isDigit, Bool.or_eq_true, Bool.and_eq_true, decide_eq_true_eq, Char.le_def, UInt32.le_iff_toNat_le,
    ge_iff_le, or_assoc]
  rfl

private theorem value?_eq_none {byte : UInt8} (other : ¬IsCode byte.toNat) : value? byte = none := by
  obtain ⟨decimal, lower, upper⟩ := not_or.mp other |>.imp_right not_or.mp
  rw [value?, if_neg decimal, if_neg lower, if_neg upper]

private theorem value?_lt {byte : UInt8} {n : Nat} (value : value? byte = some n) : n < 16 := by
  simp only [value?] at value
  split at value
  · cases value
    omega
  split at value
  · cases value
    omega
  split at value
  · cases value
    omega
  · cases value

/-- A digit has one byte, and its value is written as the digit in lower case. -/
theorem value?_of_isDigit {c : Char} (digit : isDigit c = true) :
    c.toNat ≤ 127 ∧ (value? (UInt8.ofNat c.toNat)).map Hex.digit = some c.toLower := by
  have each : ∀ n < 128, isDigit (Char.ofNat n) = true →
      (value? (UInt8.ofNat (Char.ofNat n).toNat)).map Hex.digit = some (Char.ofNat n).toLower := by decide
  have ascii : c.toNat < 128 := by
    rcases isDigit_iff.mp digit with ⟨_, most⟩ | ⟨_, most⟩ | ⟨_, most⟩ <;> omega
  have lower := each c.toNat ascii
  rw [Char.ofNat_toNat] at lower
  exact ⟨Nat.le_of_lt_succ ascii, lower digit⟩

/-- The last byte of several has the mark of a continuation. -/
theorem exists_continuation {c : Char} (long : ¬c.val.toNat ≤ 127) :
    ∃ byte ∈ String.utf8EncodeChar c, 128 ≤ byte.toNat := by
  have last : UInt8.ofNat (c.val.toNat % 64 + 128) ∈ String.utf8EncodeChar c := by
    unfold String.utf8EncodeChar
    dsimp only
    rw [if_neg long]
    split_ifs <;> simp
  refine ⟨_, last, ?_⟩
  rw [UInt8.toNat_ofNat', Nat.mod_eq_of_lt (by omega)]
  omega

/-- What is no digit has a byte that is none either. -/
theorem exists_value?_eq_none {c : Char} (other : isDigit c = false) :
    ∃ byte ∈ String.utf8EncodeChar c, value? byte = none := by
  by_cases ascii : c.toNat ≤ 127
  · have only : String.utf8EncodeChar c = [UInt8.ofNat c.toNat] := by simp [String.utf8EncodeChar, ascii]
    have code : (UInt8.ofNat c.toNat).toNat = c.toNat := by
      rw [UInt8.toNat_ofNat', Nat.mod_eq_of_lt (by omega)]
    refine ⟨UInt8.ofNat c.toNat, by simp [only], value?_eq_none ?_⟩
    rw [code, ← isDigit_iff, other]
    exact Bool.false_ne_true
  · obtain ⟨byte, member, high⟩ := exists_continuation ascii
    refine ⟨byte, member, value?_eq_none ?_⟩
    rintro (⟨_, most⟩ | ⟨_, most⟩ | ⟨_, most⟩) <;> omega

/-! ### Pairs of digits -/

private theorem decodePairs_digits {chars : List Char} (digits : ∀ c ∈ chars, isDigit c = true) (even : chars.length % 2 = 0)
    (position : Nat) : ∃ bytes, decodePairs position (chars.map fun c => UInt8.ofNat c.toNat) = .ok bytes ∧
      encode bytes = chars.map Char.toLower := by
  induction chars using List.twoStepInduction generalizing position with
  | nil => exact ⟨[], rfl, rfl⟩
  | singleton c => cases even
  | cons_cons high low rest ih =>
    obtain ⟨first, second, later⟩ : isDigit high = true ∧ isDigit low = true ∧ ∀ c ∈ rest, isDigit c = true := by
      simpa using digits
    obtain ⟨h, highValue, highLower⟩ := Option.map_eq_some_iff.mp (value?_of_isDigit first).2
    obtain ⟨l, lowValue, lowLower⟩ := Option.map_eq_some_iff.mp (value?_of_isDigit second).2
    have highSmall := value?_lt highValue
    have lowSmall := value?_lt lowValue
    obtain ⟨bytes, read, written⟩ := ih later ((Nat.add_mod_right rest.length 2).symm.trans even) (position + 2)
    refine ⟨UInt8.ofNat (16 * h + l) :: bytes, ?_, ?_⟩
    · simp only [List.map_cons, decodePairs, highValue, lowValue, read]
      rfl
    · have byte : (UInt8.ofNat (16 * h + l)).toNat = 16 * h + l := by
        rw [UInt8.toNat_ofNat', Nat.mod_eq_of_lt (by omega)]
      have halves : (16 * h + l) / 16 = h ∧ (16 * h + l) % 16 = l := by omega
      rw [encode, List.flatMap_cons, ← encode, written, encodeByte, byte, halves.1, halves.2, highLower, lowLower]
      rfl

private theorem decodePairs_other {text : List UInt8} (other : ∃ byte ∈ text, value? byte = none) (even : text.length % 2 = 0)
    (position : Nat) : ∃ byte place, decodePairs position text = .error (.badDigit byte place) := by
  induction text using List.twoStepInduction generalizing position with
  | nil => simp at other
  | singleton byte => cases even
  | cons_cons high low rest ih =>
    rw [decodePairs]
    split
    next => exact ⟨_, _, rfl⟩
    next => exact ⟨_, _, rfl⟩
    next h l highValue lowValue =>
      have later : ∃ byte ∈ rest, value? byte = none := by simpa [highValue, lowValue] using other
      obtain ⟨byte, place, read⟩ := ih later ((Nat.add_mod_right rest.length 2).symm.trans even) (position + 2)
      exact ⟨byte, place, by rw [read]; rfl⟩

/-! ### Texts -/

variable {text : String}

private theorem decode_digits (digits : ∀ c ∈ text.toList, isDigit c = true) (even : text.length % 2 = 0) :
    ∃ bytes, decode text.toUTF8.toList = .ok bytes ∧ encode bytes = text.toLower.toList := by
  have ascii := Text.toUTF8_of_ascii fun c member => (value?_of_isDigit (digits c member)).1
  rw [String.ofList_toList] at ascii
  have whole : ¬(text.toList.map fun c => UInt8.ofNat c.toNat).length % 2 = 1 := by
    rw [List.length_map, String.length_toList]
    omega
  rw [decode, ascii, if_neg whole, Text.toList_toLower]
  exact decodePairs_digits digits even 0

private theorem length_of_digits (digits : ∀ c ∈ text.toList, isDigit c = true) : text.utf8ByteSize = text.length := by
  have ascii := Text.toUTF8_of_ascii fun c member => (value?_of_isDigit (digits c member)).1
  rw [← Text.length_toUTF8, ← String.ofList_toList (s := text), ascii, List.length_map, String.ofList_toList,
    String.length_toList]

private theorem decode_other (other : text.utf8ByteSize % 2 = 1 ∨ ∃ c ∈ text.toList, isDigit c = false) :
    ∃ fault, decode text.toUTF8.toList = .error fault := by
  rw [decode, Text.length_toUTF8]
  split
  next => exact ⟨_, rfl⟩
  next even =>
    obtain ⟨c, member, none⟩ := other.resolve_left even
    obtain ⟨byte, encoded, bad⟩ := exists_value?_eq_none none
    have some : ∃ byte ∈ text.toUTF8.toList, value? byte = .none := by
      rw [Text.toUTF8_eq_flatMap]
      exact ⟨byte, List.mem_flatMap.mpr ⟨c, member, encoded⟩, bad⟩
    obtain ⟨byte, place, read⟩ := decodePairs_other some (by rw [Text.length_toUTF8]; omega) 0
    exact ⟨_, read⟩

end Hex

namespace Digest

/-! ### Digests -/

def IsText (text : String) : Prop :=
  text.length = 64 ∧ ∀ c ∈ text.toList, Hex.isDigit c = true

variable {text : String}

private theorem parse_of_isText (spelled : IsText text) : ∃ digest, parse text = .ok digest ∧ digest.toText = text.toLower := by
  obtain ⟨long, digits⟩ := spelled
  obtain ⟨bytes, read, written⟩ := Hex.decode_digits digits (by omega)
  have exact : bytes.length = 32 := by
    have both := Hex.length_encode bytes
    rw [written, Text.toList_toLower, List.length_map, String.length_toList] at both
    omega
  refine ⟨⟨⟨bytes.toArray, by simpa using exact⟩⟩, ?_, ?_⟩
  · rw [parse, read]
    simp [exact]
  · rw [toText, toList, Vector.toList_mk, written, String.ofList_toList]

private theorem parse_of_length (digits : ∀ c ∈ text.toList, Hex.isDigit c = true) (even : text.length % 2 = 0)
    (other : text.length ≠ 64) : parse text = .error (.wrongLength (text.length / 2)) := by
  obtain ⟨bytes, read, written⟩ := Hex.decode_digits digits even
  have both := Hex.length_encode bytes
  rw [written, Text.toList_toLower, List.length_map, String.length_toList] at both
  have half : text.length / 2 = bytes.length := by omega
  rw [parse, read, half]
  simp only
  rw [dif_neg (by omega)]

private theorem parse_of_other (other : text.utf8ByteSize % 2 = 1 ∨ ∃ c ∈ text.toList, Hex.isDigit c = false) :
    ∃ fault, parse text = .error (.notHex fault) := by
  obtain ⟨fault, read⟩ := Hex.decode_other other
  exact ⟨fault, by rw [parse, read]⟩

private theorem toText_injective {first second : Digest} (same : first.toText = second.toText) : first = second := by
  have read := parse_toText first
  rw [same, parse_toText] at read
  exact (Except.ok.inj read).symm

/-- A digest is read back from its text. A text is read if it has sixty-four digits of either case, and the digest is
then written as the text in lower case. Any other text of digits alone is refused for its length if that is even, and all
others as no digits, whatever their length. -/
theorem parse_reads_digits (digest : Digest) (text : String) :
    parse digest.toText = .ok digest ∧
    ((∃ read, parse text = .ok read) ↔ IsText text) ∧
    (∀ read, parse text = .ok read ↔ IsText text ∧ read.toText = text.toLower) ∧
    ((∃ fault, parse text = .error (.notHex fault)) ↔
      text.utf8ByteSize % 2 = 1 ∨ ∃ c ∈ text.toList, Hex.isDigit c = false) ∧
    ∀ actual, parse text = .error (.wrongLength actual) ↔
      (∀ c ∈ text.toList, Hex.isDigit c = true) ∧ text.utf8ByteSize % 2 = 0 ∧ text.utf8ByteSize ≠ 64 ∧
        actual = text.utf8ByteSize / 2 := by
  refine ⟨parse_toText digest, ?_⟩
  by_cases digits : ∀ c ∈ text.toList, Hex.isDigit c = true
  case neg =>
    have other : ∃ c ∈ text.toList, Hex.isDigit c = false := by simpa using digits
    obtain ⟨fault, refused⟩ := parse_of_other (.inr other)
    simp [refused, IsText, digits, other]
  have size := Hex.length_of_digits digits
  have alone : ¬∃ c ∈ text.toList, Hex.isDigit c = false := by simpa using digits
  rw [size]
  rcases Nat.mod_two_eq_zero_or_one text.length with even | odd
  case inr =>
    obtain ⟨fault, refused⟩ := parse_of_other (.inl (size ▸ odd))
    have short : text.length ≠ 64 := by omega
    simp [refused, IsText, short, odd]
  by_cases long : text.length = 64
  case neg =>
    have refused := parse_of_length digits even long
    simpa [refused, IsText, even, long, @eq_comm _ (text.length / 2)] using digits
  have spelled : IsText text := ⟨long, digits⟩
  obtain ⟨read, parsed, lower⟩ := parse_of_isText spelled
  have same (other : Digest) : read = other ↔ other.toText = text.toLower :=
    ⟨fun same => same ▸ lower, fun spelling => toText_injective (lower.trans spelling.symm)⟩
  have written : ∃ read : Digest, read.toText = text.toLower := ⟨read, lower⟩
  simp [parsed, spelled, same, written, long, alone]

end Digest
end FreshDocs
