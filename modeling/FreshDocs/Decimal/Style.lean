import FreshDocs.Decimal.Shortest
/-!
The ways in which doubles are written. One record says what a style does; the digits are
always the shortest that read back, except where a fixed number of places is asked for.
-/

namespace FreshDocs.Decimal

/-- How a double is written: from which to which power of the first digit positionally,
whether a whole number keeps `.0`, whether a positive exponent has a sign, and the words for
the values that are no number. -/
structure Style where
  lowest : Option Int
  highest : Option Int
  keepsPoint : Bool
  plusSign : Bool
  notANumber : String
  infinity : String
  negativeInfinity : String

namespace Style

/-- Messages: always positional, whole numbers without a point. -/
def message : Style :=
  { lowest := none, highest := none, keepsPoint := false, plusSign := false
    notANumber := "NaN", infinity := "inf", negativeInfinity := "-inf" }

/-- Structured data: `1e-6` and `1e+16` lie just outside the positional range, and what is no
number is written as the absent value. -/
def data : Style :=
  { lowest := some (-5), highest := some 15, keepsPoint := true, plusSign := true
    notANumber := "null", infinity := "null", negativeInfinity := "null" }

/-- Tables: the range of structured data, but no sign before a positive exponent. -/
def table : Style :=
  { message with lowest := some (-5), highest := some 15, keepsPoint := true }

/-- Inspection texts: positional from `0.0001` to below `1e16`. -/
def inspection : Style :=
  { message with lowest := some (-4), highest := some 15, keepsPoint := true }

def zeros (count : Nat) : List Char :=
  List.replicate count '0'

/-- Digits and a point, without exponent. -/
def positional (keepsPoint : Bool) (x : Scaled) : List Char :=
  let digits := x.digitText
  let wholes := x.leading + 1
  if 0 ≤ x.exponent then
    digits ++ zeros x.exponent.toNat ++ (if keepsPoint then ['.', '0'] else [])
  else if 0 < wholes then
    digits.take wholes.toNat ++ '.' :: digits.drop wholes.toNat
  else '0' :: '.' :: zeros (-wholes).toNat ++ digits

/-- One digit before the point, and the power of ten. -/
def scientific (plusSign : Bool) (x : Scaled) : List Char :=
  let power := x.leading
  let fraction := x.digitText.drop 1
  x.digitText.take 1 ++ (if fraction.isEmpty then [] else '.' :: fraction) ++
    'e' :: (if power < 0 then ['-'] else if plusSign then ['+'] else []) ++
    Nat.toDigits 10 power.natAbs

def render (style : Style) (x : Float) : String :=
  match Binary.ofFloat x with
  | .notANumber => style.notANumber
  | .infinite negative => if negative then style.negativeInfinity else style.infinity
  | .finite negative mantissa exponent =>
    let sign := if negative then ['-'] else []
    if mantissa = 0 then
      String.ofList (sign ++ '0' :: (if style.keepsPoint then ['.', '0'] else []))
    else
      let decimal := shortest mantissa exponent
      let power := decimal.leading
      let within := style.lowest.all (· ≤ power) && style.highest.all (power ≤ ·)
      String.ofList (sign ++
        if within then positional style.keepsPoint decimal else scientific style.plusSign decimal)

end Style

/-- The natural number nearest to `num / den`; halves go to the even neighbour. -/
def roundToEven (num den : Nat) : Nat :=
  let floor := num / den
  let rest := num % den
  if 2 * rest < den ∨ 2 * rest = den ∧ floor % 2 = 0 then floor else floor + 1

def toHundredths (x : Float) : String :=
  match Binary.ofFloat x with
  | .notANumber => Style.message.notANumber
  | .infinite negative =>
    if negative then Style.message.negativeInfinity else Style.message.infinity
  | .finite negative mantissa exponent =>
    let hundredths := roundToEven (100 * mantissa <<< exponent.toNat) (1 <<< (-exponent).toNat)
    let digits := Nat.toDigits 10 hundredths
    let padded := Style.zeros (3 - digits.length) ++ digits
    let wholes := padded.length - 2
    String.ofList ((if negative then ['-'] else []) ++ padded.take wholes ++
      '.' :: padded.drop wholes)

end FreshDocs.Decimal
