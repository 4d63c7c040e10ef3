import FreshDocs.Time.Timestamp
import FreshDocs.Time.Calendar
import FreshDocs.Text.Blank
/-!
Timestamps as text. They are written in UTC with the fewest of 0, 3, 6 or 9 places that are
exact. A reader is more generous: blanks between the parts, short numbers, a space for the
`T`, any offset from UTC.
-/

namespace FreshDocs.Timestamp

/-- A natural number in at least `width` digits. -/
def padded (width n : Nat) : List Char :=
  let digits := Nat.toDigits 10 n
  List.replicate (width - digits.length) '0' ++ digits

def yearText (year : Int) : List Char :=
  if 0 ≤ year ∧ year ≤ 9999 then padded 4 year.toNat
  else (if year < 0 then '-' else '+') :: padded 4 year.natAbs

def fractionText (nano : Nat) : List Char :=
  if nano = 0 then []
  else if nano % 1000000 = 0 then '.' :: padded 3 (nano / 1000000)
  else if nano % 1000 = 0 then '.' :: padded 6 (nano / 1000)
  else '.' :: padded 9 nano

/-- Date and time of day, without the offset. -/
def civilText (t : Timestamp) : List Char :=
  let date := Calendar.ofDays (t.second / 86400)
  let ofDay := (t.second % 86400).toNat
  let leap := t.nano / 1000000000
  yearText date.year ++ '-' :: padded 2 date.month ++ '-' :: padded 2 date.day ++
    'T' :: padded 2 (ofDay / 3600) ++ ':' :: padded 2 (ofDay / 60 % 60) ++
    ':' :: padded 2 (ofDay % 60 + leap) ++ fractionText (t.nano % 1000000000)

def toText (t : Timestamp) : String :=
  String.ofList (t.civilText ++ ['Z'])

def toOffsetText (t : Timestamp) : String :=
  String.ofList (t.civilText ++ "+00:00".toList)

def number? (most : Nat) (text : List Char) : Option (Nat × List Char) :=
  let digits := (text.take most).takeWhile Char.isDigit
  if digits.isEmpty then none
  else some (Nat.ofDigitChars 10 digits 0, text.drop digits.length)

def literal? (c : Char) : List Char → Option (List Char)
  | d :: rest => if d = c then some rest else none
  | [] => none

def year? (text : List Char) : Option (Int × List Char) :=
  match text with
  | '-' :: rest => (number? rest.length rest).map fun (n, rest) => (-(n : Int), rest)
  | '+' :: rest => (number? rest.length rest).map fun (n, rest) => ((n : Int), rest)
  | _ => (number? 4 text).map fun (n, rest) => ((n : Int), rest)

/-- A fraction of a second in nanoseconds; places beyond the ninth are dropped. -/
def fraction? : List Char → Option (Nat × List Char)
  | '.' :: text =>
    let digits := text.takeWhile Char.isDigit
    let places := (digits ++ List.replicate 9 '0').take 9
    if digits.isEmpty then none
    else some (Nat.ofDigitChars 10 places 0, text.drop digits.length)
  | text => some (0, text)

def twoDigits? : List Char → Option (Nat × List Char)
  | a :: b :: rest =>
    if a.isDigit && b.isDigit then some (Nat.ofDigitChars 10 [a, b] 0, rest) else none
  | _ => none

def offset? (text : List Char) : Option (Int × List Char) :=
  match text with
  | c :: rest =>
    if c = 'Z' ∨ c = 'z' then some (0, rest)
    else if (text.take 3).map Char.toLower = ['u', 't', 'c'] then some (0, text.drop 3)
    else do
      let sign : Int ← if c = '+' then some 1 else if c = '-' ∨ c = '−' then some (-1) else none
      let (hours, rest) ← twoDigits? rest
      let (minutes, rest) ← twoDigits? (rest.dropWhile fun c => c = ':' || Text.isBlank c)
      if 60 ≤ minutes ∨ 24 ≤ hours then none
      else some (sign * (hours * 3600 + minutes * 60), rest)
  | [] => none

/-- The nanoseconds of a second; those of the leap second follow on the second before it. -/
def nanosOf (second nano : Nat) : Nat :=
  nano % 1000000000 + 1000000000 * (second / 60 % 2)

theorem nanosOf_lt (second nano : Nat) : nanosOf second nano < 2000000000 := by
  unfold nanosOf
  omega

def parse? (text : String) : Option Timestamp := do
  let skip := Text.trimStart
  let (year, rest) ← year? (skip text.toList)
  let (month, rest) ← number? 2 (skip (← literal? '-' (skip rest)))
  let (day, rest) ← number? 2 (skip (← literal? '-' (skip rest)))
  let rest ← match rest with
    | c :: rest => if c = 'T' ∨ c = 't' ∨ c = ' ' then some rest else none
    | [] => none
  let (hour, rest) ← number? 2 (skip rest)
  let (minute, rest) ← number? 2 (skip (← literal? ':' (skip rest)))
  let (second, rest) ← number? 2 (skip (← literal? ':' (skip rest)))
  let (nano, rest) ← fraction? rest
  let (offset, rest) ← offset? (skip rest)
  let date : Calendar.Date := { year, month, day }
  if date.valid && -262143 ≤ year && year ≤ 262142 && hour < 24 && minute < 60 && second ≤ 60 &&
      (skip rest).isEmpty then
    let ofDay := hour * 3600 + minute * 60 + min second 59
    some
      { second := Calendar.toDays date * 86400 + ofDay - offset
        nano := nanosOf second nano
        nano_lt := nanosOf_lt second nano }
  else none

end FreshDocs.Timestamp
