/-!
What a double stands for: a sign and a natural number of units of a power of two, or one of
the three values that are no number.
-/

namespace FreshDocs.Decimal

/-- A double taken apart: the finite ones are `mantissa * 2 ^ exponent` behind the sign. -/
inductive Binary where
  | notANumber
  | infinite (negative : Bool)
  | finite (negative : Bool) (mantissa : Nat) (exponent : Int)
  deriving DecidableEq

/-- The bit in front of the fraction, which a double of full precision has but does not write. -/
def Binary.leadingBit : Nat := 0x10000000000000

/-- Reads the sign, the eleven exponent bits and the 52 fraction bits. -/
def Binary.ofBits (bits : Nat) : Binary :=
  let negative := bits.testBit 63
  let biased := bits / leadingBit % 2048
  let fraction := bits % leadingBit
  if biased = 2047 then
    if fraction = 0 then .infinite negative else .notANumber
  else if biased = 0 then .finite negative fraction (-1074)
  else .finite negative (leadingBit + fraction) ((biased : Int) - 1075)

def Binary.ofFloat (x : Float) : Binary :=
  Binary.ofBits x.toBits.toNat

end FreshDocs.Decimal
