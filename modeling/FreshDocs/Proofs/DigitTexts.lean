import FreshDocs.Digest.Basic
import FreshDocs.Uuid
import Mathlib.Algebra.Ring.Nat

/-! Texts of digits. A number is found again where the digits that it was written in end, and an id or a digest is read
as what it was written from. -/

namespace FreshDocs

/-! ### Decimal digits -/

namespace Text

variable {digits rest : List Char}

theorem isDigit_of_toDigits {n : Nat} : ∀ c ∈ Nat.toDigits 10 n, c.isDigit = true :=
  fun _ => Nat.isDigit_of_mem_toDigits (by decide) (by decide)

theorem takeWhile_digits (numeric : ∀ c ∈ digits, c.isDigit = true) (ends : rest.takeWhile Char.isDigit = []) :
    (digits ++ rest).takeWhile Char.isDigit = digits := by
  rw [List.takeWhile_append_of_pos numeric, ends, List.append_nil]

/-- Only zero is written with a zero in front. -/
theorem toDigits_head {n : Nat} (leading : (Nat.toDigits 10 n).head? = some '0') : (Nat.toDigits 10 n).length = 1 := by
  have head (n : Nat) : (Nat.toDigits 10 n).head? = some '0' → n = 0 := by
    induction n using Nat.strongRecOn with
    | ind n ih =>
      rw [Nat.toDigits_eq_if (by decide)]
      split
      next => simp
      next more =>
        obtain ⟨first, later, shape⟩ := List.exists_cons_of_ne_nil (@Nat.toDigits_ne_nil (n / 10) 10)
        intro leading
        have none := ih (n / 10) (by omega) (by simpa [shape] using leading)
        omega
  rw [head n leading]
  simp

end Text

/-! ### Hexadecimal digits -/

namespace Hex

theorem value?_digit {n : Nat} (small : n < 16) :
    (digit n).toNat ≤ 127 ∧ value? (UInt8.ofNat (digit n).toNat) = some n := by
  have each : ∀ n < 16, (digit n).toNat ≤ 127 ∧ value? (UInt8.ofNat (digit n).toNat) = some n := by decide
  exact each n small

private theorem digit_ne_u {n : Nat} (small : n < 16) : digit n ≠ 'u' := by
  have each : ∀ n < 16, digit n ≠ 'u' := by decide
  exact each n small

theorem number?_append_digit {digits : List Char} {total n : Nat} (read : number? digits = some total) (small : n < 16) :
    number? (digits ++ [digit n]) = some (16 * total + n) := by
  obtain ⟨ascii, value⟩ := value?_digit small
  rw [number?, List.foldl_append, ← number?, read]
  simp [value, Nat.not_lt.mpr ascii]

private theorem decodePairs_encode (bytes : List UInt8) (position : Nat) :
    decodePairs position ((encode bytes).map fun c => UInt8.ofNat c.toNat) = .ok bytes := by
  induction bytes generalizing position with
  | nil => rfl
  | cons byte rest ih =>
    have high := (@value?_digit (byte.toNat / 16) (by have := byte.toNat_lt; omega)).2
    have low := (@value?_digit (byte.toNat % 16) (Nat.mod_lt _ (by decide))).2
    have whole : UInt8.ofNat (16 * (byte.toNat / 16) + byte.toNat % 16) = byte := by
      rw [Nat.div_add_mod, UInt8.ofNat_toNat]
    simp only [encode, List.flatMap_cons, encodeByte, List.cons_append, List.nil_append, List.map_cons]
    rw [decodePairs, high, low]
    simp only [whole]
    rw [← encode, ih]
    rfl

theorem length_encode (bytes : List UInt8) : (encode bytes).length = 2 * bytes.length := by
  induction bytes with
  | nil => rfl
  | cons byte rest ih =>
    rw [encode, List.flatMap_cons, List.length_append, ← encode, ih, List.length_cons, encodeByte]
    exact Nat.add_comm _ _

private theorem ascii_encode {bytes : List UInt8} : ∀ c ∈ encode bytes, c.toNat ≤ 127 := by
  intro c member
  obtain ⟨byte, -, member⟩ := List.mem_flatMap.mp member
  have small := byte.toNat_lt
  rcases List.mem_cons.mp member with rfl | member
  · exact (value?_digit (by omega)).1
  · rw [List.mem_singleton.mp member]
    exact (value?_digit (Nat.mod_lt _ (by decide))).1

end Hex

/-! ### Bytes of a text -/

namespace Text

private theorem toList_loop (bytes : ByteArray) (place : Nat) (read : List UInt8) :
    ByteArray.toList.loop bytes place read = read.reverse ++ bytes.data.toList.drop place := by
  fun_induction ByteArray.toList.loop bytes place read with
  | case1 place read inside ih =>
    have next : place < bytes.data.toList.length := by simpa using inside
    have here : bytes.get! place = bytes.data.toList[place] := by
      rw [Array.getElem_toList]
      exact getElem!_pos bytes.data place (by simpa using inside)
    rw [ih, List.drop_eq_getElem_cons next, here]
    simp
  | case2 place read outside =>
    have past : bytes.data.toList.length ≤ place := by simpa using outside
    rw [List.drop_eq_nil_of_le past, List.append_nil]

theorem toList_eq_data (bytes : ByteArray) : bytes.toList = bytes.data.toList := by
  rw [ByteArray.toList, toList_loop]
  rfl

theorem toUTF8_of_ascii {chars : List Char} (ascii : ∀ c ∈ chars, c.toNat ≤ 127) :
    (String.ofList chars).toUTF8.toList = chars.map fun c => UInt8.ofNat c.toNat := by
  rw [toList_eq_data]
  have encoded : (String.ofList chars).toUTF8 = chars.utf8Encode := by simp
  rw [encoded]
  induction chars with
  | nil => rfl
  | cons c rest ih =>
    obtain ⟨first, later⟩ := List.forall_mem_cons.mp ascii
    have one : String.utf8EncodeChar c = [UInt8.ofNat c.toNat] := by
      simp [String.utf8EncodeChar, first]
    rw [List.utf8Encode_cons, ByteArray.toList_data_append, ih later (by simp), List.utf8Encode_singleton, one]
    rfl

end Text

/-! ### Digests and ids -/

theorem Digest.parse_toText (digest : Digest) : Digest.parse digest.toText = .ok digest := by
  have bytes : digest.toText.toUTF8.toList = (Hex.encode digest.toList).map fun c => UInt8.ofNat c.toNat :=
    Text.toUTF8_of_ascii Hex.ascii_encode
  have decoded : Hex.decode digest.toText.toUTF8.toList = .ok digest.toList := by
    rw [bytes, Hex.decode, if_neg (by simp [Hex.length_encode]), Hex.decodePairs_encode]
  unfold parse
  rw [decoded]
  simp only [toList, Vector.length_toList, ↓reduceDIte, Except.ok.injEq]
  exact congrArg Digest.mk (Vector.toArray_inj.mp Vector.toArray_toList)

namespace Uuid

private theorem length_digits (id : Uuid) : id.digits.length = 32 := by
  simp [digits]

/-- The digits up to a place are those of the number without the later places. -/
theorem number?_digits_take (bits : Nat) (places : Nat) (within : places ≤ 32) (bounded : bits < 2 ^ 128) :
    Hex.number? ((List.range places).map fun place => Hex.digit (bits >>> (4 * (31 - place)) % 16)) =
      some (bits >>> (4 * (32 - places))) := by
  induction places with
  | zero =>
    rw [Nat.shiftRight_eq_div_pow, Nat.div_eq_of_lt bounded]
    rfl
  | succ places ih =>
    rw [List.range_succ, List.map_append, List.map_singleton,
      Hex.number?_append_digit (ih (by omega)) (Nat.mod_lt _ (by decide))]
    have shift : 4 * (32 - places) = 4 * (31 - places) + 4 := by omega
    have rest : 4 * (32 - (places + 1)) = 4 * (31 - places) := by omega
    rw [shift, rest, Nat.shiftRight_add, Nat.shiftRight_eq_div_pow _ 4, Nat.div_add_mod]

theorem number?_digits (id : Uuid) : Hex.number? id.digits = some id.bits.toNat :=
  number?_digits_take id.bits.toNat 32 (Nat.le_refl _) id.bits.isLt

private theorem ungroup?_grouped {a b c d e : List Char} (la : a.length = 8) (lb : b.length = 4) (lc : c.length = 4)
    (ld : d.length = 4) (le : e.length = 12) :
    ungroup? (a ++ '-' :: b ++ '-' :: c ++ '-' :: d ++ '-' :: e) = some (a ++ b ++ c ++ d ++ e) := by
  simp [ungroup?, la, lb, lc, ld, le, List.getElem?_append, List.drop_append, List.drop_eq_nil_of_le]

theorem parse?_toText (id : Uuid) : parse? id.toText = some id := by
  have length := length_digits id
  have regroup {start count next : Nat} (follows : start + count = next) :
      (id.digits.drop start).take count ++ id.digits.drop next = id.digits.drop start := by
    rw [← follows, ← List.drop_drop, List.take_append_drop]
  have last : (id.digits.drop 20).take 12 = id.digits.drop 20 := List.take_of_length_le (by simp [length])
  have whole : id.digits.take 8 ++ (id.digits.drop 8).take 4 ++ (id.digits.drop 12).take 4 ++
      (id.digits.drop 16).take 4 ++ (id.digits.drop 20).take 12 = id.digits := by
    rw [last, List.append_assoc, regroup rfl, List.append_assoc, regroup rfl, List.append_assoc, regroup rfl,
      List.take_append_drop]
  have grouped : ungroup? id.toText.toList = some id.digits := by
    rw [← whole, ← ungroup?_grouped (by simp [length]) (by simp [length]) (by simp [length]) (by simp [length])
      (by simp [length])]
    simp [toText]
  have long : id.toText.toList.length = 36 := by simp [toText, length]
  have unnamed : "urn:uuid:".toList.isPrefixOf id.toText.toList = false := by
    have starts : id.digits = Hex.digit (id.bits.toNat >>> 124 % 16) :: id.digits.tail := rfl
    have other := Hex.digit_ne_u (Nat.mod_lt (id.bits.toNat >>> 124) (Nat.zero_lt_succ 15))
    rw [toText, starts]
    simp [List.isPrefixOf, Ne.symm other]
  simp only [parse?, long, grouped, unnamed]
  simp [number?_digits, ofNat]

end Uuid
end FreshDocs
