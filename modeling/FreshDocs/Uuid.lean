import FreshDocs.Json.Value
import FreshDocs.Text.Hex
import Std.Data.ExtTreeMap
/-!
Names for things that have no other: 128 bits, written as 32 hexadecimal digits in groups of
8, 4, 4, 4 and 12. Each component draws its own from a numbered space, so that no two are
ever equal.
-/

namespace FreshDocs

structure Uuid where
  bits : BitVec 128
  deriving DecidableEq

namespace Uuid

def nil : Uuid := ⟨0⟩

/-- Ids are ordered as numbers. -/
instance : Ord Uuid := ⟨compareOn fun id => id.bits.toNat⟩

instance : Std.TransOrd Uuid :=
  inferInstanceAs (Std.TransCmp (compareOn fun id : Uuid => id.bits.toNat))

instance : Std.LawfulEqOrd Uuid where
  eq_of_compare {a b} same := by
    have : a.bits = b.bits := BitVec.eq_of_toNat_eq (Std.LawfulEqOrd.eq_of_compare same)
    cases a
    cases b
    simpa using this

def ofNat (value : Nat) : Uuid := ⟨BitVec.ofNat 128 value⟩

def digits (id : Uuid) : List Char :=
  (List.range 32).map fun place => Hex.digit (id.bits.toNat >>> (4 * (31 - place)) % 16)

def toText (id : Uuid) : String :=
  let digits := id.digits
  let group start length := (digits.drop start).take length
  String.ofList (group 0 8 ++ '-' :: group 8 4 ++ '-' :: group 12 4 ++ '-' :: group 16 4 ++
    '-' :: group 20 12)

/-- The digits of the grouped form, if the hyphens are where they belong. -/
def ungroup? (text : List Char) : Option (List Char) :=
  if text.length = 36 ∧ [8, 13, 18, 23].all (fun place => text[place]? = some '-') then
    some (text.take 8 ++ (text.drop 9).take 4 ++ (text.drop 14).take 4 ++ (text.drop 19).take 4 ++
      text.drop 24)
  else none

/-- Reads digits alone, the grouped form, that in braces, or that as a resource name. -/
def parse? (text : String) : Option Uuid := do
  let chars := text.toList
  let digits ←
    if chars.length = 32 then some chars
    else if chars.length = 38 ∧ chars.head? = some '\x7b' ∧ chars.getLast? = some '\x7d' then
      ungroup? ((chars.drop 1).take 36)
    else if "urn:uuid:".toList.isPrefixOf chars then ungroup? (chars.drop 9)
    else ungroup? chars
  return ofNat (← Hex.number? digits)

instance : ToJson Uuid := ⟨fun id => .string id.toText⟩

def ofJson? (value : Json) : Option Uuid :=
  value.string?.bind parse?

/-- Where new ids come from: the numbers of one space, each once. -/
structure Supply where
  space : Nat
  next : Nat := 1

def Supply.draw (supply : Supply) : Uuid × Supply :=
  (ofNat (supply.space * UInt64.size + supply.next), { supply with next := supply.next + 1 })

end Uuid
end FreshDocs
