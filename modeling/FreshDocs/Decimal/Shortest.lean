import FreshDocs.Decimal.Binary
/-!
The shortest decimal that reads back as a given double. The reals that round to a double form
an interval, closed exactly when the mantissa is even. For one digit, two digits and so on the
two neighbours of the value on that decimal grid are tested; the first grid with a hit wins,
of two hits the nearer one, and of two equally near the even one.
-/

namespace FreshDocs.Decimal

/-- The number `digits * 10 ^ exponent`. -/
structure Scaled where
  digits : Nat
  exponent : Int
  deriving DecidableEq

namespace Scaled

/-- Moves zeros at the end of the digits into the exponent; `fuel` bounds their number. -/
def stripZeros : (fuel : Nat) → Scaled → Scaled
  | 0, x => x
  | fuel + 1, x =>
    if x.digits ≠ 0 ∧ x.digits % 10 = 0 then stripZeros fuel ⟨x.digits / 10, x.exponent + 1⟩
    else x

def digitText (x : Scaled) : List Char :=
  Nat.toDigits 10 x.digits

def leading (x : Scaled) : Int :=
  x.exponent + x.digitText.length - 1

end Scaled

def digitCount (n : Nat) : Nat :=
  (Nat.toDigits 10 n).length

/-- The power of ten of the first digit of the positive fraction `num / den`. -/
def leadingPower (num den : Nat) : Int :=
  if den ≤ num then (digitCount (num / den) : Int) - 1
  else -(digitCount ((den + num - 1) / num - 1) : Int)

/-- The reals that round to one double, in quarters of its last place: the value is
`4 * mantissa * unit / scale`. -/
structure Interval where
  mantissa : Nat
  below : Nat
  unit : Nat
  scale : Nat

namespace Interval

def ofBinary (mantissa : Nat) (exponent : Int) : Interval :=
  { mantissa
    below := if mantissa = Binary.leadingBit ∧ -1074 < exponent then 1 else 2
    unit := 1 <<< (exponent - 2).toNat
    scale := 1 <<< (2 - exponent).toNat }

/-- The best point of the grid of multiples of `10 ^ power` that rounds to the double. -/
def onGrid? (i : Interval) (power : Int) : Option Scaled :=
  let step := i.scale * Nat.pow 10 power.toNat
  let unit := i.unit * Nat.pow 10 (-power).toNat
  let value := 4 * i.mantissa * unit
  let low := (4 * i.mantissa - i.below) * unit
  let high := (4 * i.mantissa + 2) * unit
  let inside (c : Nat) : Bool :=
    if i.mantissa % 2 = 0 then low ≤ c * step && c * step ≤ high
    else low < c * step && c * step < high
  let floor := value / step
  let ceiling := floor + 1
  let downward := value - floor * step
  let upward := ceiling * step - value
  match inside floor && decide (0 < floor), inside ceiling with
  | true, true =>
    if downward < upward ∨ downward = upward ∧ floor % 2 = 0 then some ⟨floor, power⟩
    else some ⟨ceiling, power⟩
  | true, false => some ⟨floor, power⟩
  | false, true => some ⟨ceiling, power⟩
  | false, false => none

/-- Tries finer and finer grids, `left` more of them. -/
def search (i : Interval) : (left : Nat) → (power : Int) → Scaled
  | 0, power =>
    ⟨4 * i.mantissa * i.unit * Nat.pow 10 (-power).toNat / (i.scale * Nat.pow 10 power.toNat), power⟩
  | left + 1, power =>
    match i.onGrid? power with
    | some found => found
    | none => search i left (power - 1)

end Interval

/-- The shortest decimal that reads back as `mantissa * 2 ^ exponent`, for a positive
mantissa. Seventeen digits always suffice. -/
def shortest (mantissa : Nat) (exponent : Int) : Scaled :=
  let i := Interval.ofBinary mantissa exponent
  let found := i.search 17 (leadingPower (4 * i.mantissa * i.unit) i.scale)
  found.stripZeros 20

end FreshDocs.Decimal
