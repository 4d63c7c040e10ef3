import FreshDocs.Json.Reader
import FreshDocs.Time.Calendar
/-!
Values in configuration text that hold no others: strings, whole and real numbers, truth values
and dates. Each reader takes a text and gives what it read and the rest.
-/

namespace FreshDocs.Toml

/-- What a reader makes of a text: a value, and the rest. -/
abbrev Read (α : Type) := List Char → Option (α × List Char)

def isSpace (c : Char) : Bool :=
  c = ' ' || c = '\t'

def skipSpace (text : List Char) : List Char :=
  text.dropWhile isSpace

/-- Characters that may stand for themselves: no controls but the tabulator. -/
def isPlain (c : Char) : Bool :=
  c = '\t' || (32 ≤ c.toNat && c.toNat ≠ 127)

def newline? : List Char → Option (List Char)
  | '\n' :: rest => some rest
  | '\r' :: '\n' :: rest => some rest
  | _ => none

def after? (word : String) (text : List Char) : Option (List Char) :=
  Json.word? word text

/-! ### Strings -/

/-- The character of a code given by its hexadecimal digits, if there is one. -/
def charOfDigits? (digits : List Char) : Option Char := do
  let code ← Hex.number? digits
  if h : code.isValidChar then some (Char.ofNatAux code h) else none

/-- A character after a backslash. -/
def escape? : Read Char
  | 'b' :: rest => some ('\x08', rest)
  | 't' :: rest => some ('\t', rest)
  | 'n' :: rest => some ('\n', rest)
  | 'f' :: rest => some ('\x0c', rest)
  | 'r' :: rest => some ('\r', rest)
  | '"' :: rest => some ('"', rest)
  | '\\' :: rest => some ('\\', rest)
  | 'u' :: rest =>
    if (rest.take 4).length = 4 then (charOfDigits? (rest.take 4)).map (·, rest.drop 4) else none
  | 'U' :: rest =>
    if (rest.take 8).length = 8 then (charOfDigits? (rest.take 8)).map (·, rest.drop 8) else none
  | _ => none

/-- The rest of a text in double quotes. Every step takes at least one character, so `fuel` may
be the length. -/
def basicRest? : (fuel : Nat) → Read (List Char)
  | 0, _ => none
  | fuel + 1, text =>
    match text with
    | '"' :: rest => some ([], rest)
    | '\\' :: rest => do
      let (c, rest) ← escape? rest
      let (chars, rest) ← basicRest? fuel rest
      return (c :: chars, rest)
    | c :: rest =>
      if isPlain c then (basicRest? fuel rest).map fun (chars, rest) => (c :: chars, rest)
      else none
    | [] => none

/-- The rest of a text in single quotes, where nothing is escaped. -/
def literalRest? (text : List Char) : Option (List Char × List Char) :=
  let body := text.takeWhile (· ≠ '\'')
  match text.drop body.length with
  | _ :: rest => if body.all isPlain then some (body, rest) else none
  | [] => none

/-- Blanks and line ends that a backslash at the end of a line takes away. There is at least
one line end. -/
def continuation? (text : List Char) : Option (List Char) := do
  let rest ← newline? (skipSpace text)
  let rec skip : (fuel : Nat) → List Char → List Char
    | 0, text => text
    | fuel + 1, text =>
      match newline? (skipSpace text) with
      | some rest => skip fuel rest
      | none => skipSpace text
  return skip rest.length rest

/-- How many quotes a text starts with, at most five. -/
def leading (quote : Char) (text : List Char) : Nat :=
  ((text.take 5).takeWhile (· = quote)).length

/-- The rest of a text in three quotes. Up to two quotes may stand before the three that
close it. -/
def longRest? (quote : Char) (escapes : Bool) : (fuel : Nat) → Read (List Char)
  | 0, _ => none
  | fuel + 1, text =>
    let quotes := leading quote text
    if 3 ≤ quotes then some (List.replicate (quotes - 3) quote, text.drop quotes)
    else
      match newline? text, text with
      | some rest, _ => (longRest? quote escapes fuel rest).map fun (cs, rest) => ('\n' :: cs, rest)
      | none, c :: rest =>
        if c = '\\' && escapes then
          match continuation? rest with
          | some rest => longRest? quote escapes fuel rest
          | none => do
            let (c, rest) ← escape? rest
            let (chars, rest) ← longRest? quote escapes fuel rest
            return (c :: chars, rest)
        else if isPlain c then
          (longRest? quote escapes fuel rest).map fun (chars, rest) => (c :: chars, rest)
        else none
      | none, [] => none

/-- A text in quotes of one kind. -/
def quoted? (text : List Char) : Option (String × List Char) :=
  (match text with
    | '"' :: rest => basicRest? (rest.length + 1) rest
    | '\'' :: rest => literalRest? rest
    | _ => none).map fun (chars, rest) => (String.ofList chars, rest)

/-- A text in quotes, or in three quotes, where a line end right after the opening ones does
not count. -/
def string? (text : List Char) : Option (String × List Char) :=
  let long (quote : Char) (rest : List Char) : Option (String × List Char) :=
    let body := (newline? rest).getD rest
    (longRest? quote (quote = '"') (body.length + 1) body).map fun (chars, rest) =>
      (String.ofList chars, rest)
  match text with
  | '"' :: '"' :: '"' :: rest => long '"' rest
  | '\'' :: '\'' :: '\'' :: rest => long '\'' rest
  | _ => quoted? text

/-! ### Numbers -/

/-- Digits, where an underscore may stand between any two; without the underscores. -/
def digits? (isDigit : Char → Bool) : Read (List Char)
  | [] => none
  | c :: rest =>
    let rec more : List Char → List Char × List Char
      | '_' :: c :: rest =>
        if isDigit c then
          let (chars, rest) := more rest
          (c :: chars, rest)
        else ([], '_' :: c :: rest)
      | c :: rest =>
        if isDigit c then
          let (chars, rest) := more rest
          (c :: chars, rest)
        else ([], c :: rest)
      | [] => ([], [])
    if isDigit c then
      let (chars, rest) := more rest
      some (c :: chars, rest)
    else none

def sign (text : List Char) : Bool × List Char :=
  match text with
  | '-' :: rest => (true, rest)
  | '+' :: rest => (false, rest)
  | _ => (false, text)

def decimal? (text : List Char) : Option ((Bool × List Char) × List Char) :=
  let (negative, rest) := sign text
  match rest with
  | '0' :: rest => some ((negative, ['0']), rest)
  | _ => (digits? Char.isDigit rest).map fun (digits, rest) => ((negative, digits), rest)

def exponent? : Read Int
  | c :: rest =>
    if c = 'e' ∨ c = 'E' then
      let (negative, rest) := sign rest
      (digits? Char.isDigit rest).map fun (digits, rest) =>
        let power : Int := Nat.ofDigitChars 10 digits 0
        (if negative then -power else power, rest)
    else none
  | [] => none

/-- The double nearest to a decimal. One that is too large is infinite. -/
def realOfParts (negative : Bool) (digits : Nat) (exponent : Int) : Float :=
  let size :=
    match Json.realOfParts? false digits exponent with
    | some value => value
    | none => 1.0 / 0.0
  if negative then -size else size

/-- A real number: with a fraction, an exponent or both. None is too large. -/
def real? (text : List Char) : Option (Float × List Char) := do
  let ((negative, whole), rest) ← decimal? text
  let (places, rest') ←
    match rest with
    | '.' :: rest => digits? Char.isDigit rest
    | _ => some ([], rest)
  let power := exponent? rest'
  if places.isEmpty && power.isNone then none
  else
    let (exponent, rest) := power.getD (0, rest')
    let value := realOfParts negative (Nat.ofDigitChars 10 (whole ++ places) 0)
      (exponent - places.length)
    if value.isInf && !negative then none else some (value, rest)

/-- An infinity, or what is no number. -/
def special? (text : List Char) : Option (Float × List Char) :=
  let (negative, rest) := sign text
  let signed (value : Float) := if negative then -value else value
  ((after? "inf" rest).map (signed (1.0 / 0.0), ·)) <|>
    ((after? "nan" rest).map (signed (0.0 / 0.0), ·))

/-- The integers are those from `-integerBound` up to, but not including, `integerBound`. -/
def integerBound : Nat := 0x8000000000000000

/-- A whole number of 64 bits in a base that is named in front, or in decimal. -/
def integer? (text : List Char) : Option (Int × List Char) := do
  let isHex (c : Char) := c.toNat < 128 && (Hex.value? (UInt8.ofNat c.toNat)).isSome
  let based (base : Nat) (isDigit : Char → Bool) (rest : List Char) :
      Option (Int × List Char) := do
    let (digits, rest) ← digits? isDigit rest
    let value := digits.foldl (fun sum c =>
      base * sum + (Hex.value? (UInt8.ofNat c.toNat)).getD 0) 0
    if value < integerBound then some (value, rest) else none
  match text with
  | '0' :: 'x' :: rest => based 16 isHex rest
  | '0' :: 'o' :: rest => based 8 (fun c => '0' ≤ c && c ≤ '7') rest
  | '0' :: 'b' :: rest => based 2 (fun c => c = '0' || c = '1') rest
  | _ =>
    let ((negative, digits), rest) ← decimal? text
    let size : Int := Nat.ofDigitChars 10 digits 0
    let value := if negative then -size else size
    if -(integerBound : Int) ≤ value ∧ value < integerBound then some (value, rest) else none

/-! ### Dates -/

def fixed? (width low high : Nat) (text : List Char) : Option (Nat × List Char) :=
  let digits := text.take width
  let value := Nat.ofDigitChars 10 digits 0
  if digits.length = width && digits.all Char.isDigit && low ≤ value && value ≤ high then
    some (value, text.drop width)
  else none

def date? (text : List Char) : Option (List Char) := do
  let (year, rest) ← fixed? 4 0 9999 text
  let (month, rest) ← fixed? 2 1 12 (← after? "-" rest)
  let (_, rest) ← fixed? 2 1 (Calendar.daysInMonth year month) (← after? "-" rest)
  return rest

def time? (text : List Char) : Option (List Char) := do
  let (_, rest) ← fixed? 2 0 23 text
  let (_, rest) ← fixed? 2 0 59 (← after? ":" rest)
  let (_, rest) ← fixed? 2 0 60 (← after? ":" rest)
  match rest with
  | '.' :: fraction =>
    let digits := fraction.takeWhile Char.isDigit
    if digits.isEmpty then some rest else some (fraction.drop digits.length)
  | _ => some rest

def offset? (text : List Char) : Option (List Char) :=
  match text with
  | c :: rest =>
    if c = 'Z' ∨ c = 'z' then some rest
    else if c = '+' ∨ c = '-' then do
      let (_, rest) ← fixed? 2 0 23 rest
      let (_, rest) ← fixed? 2 0 59 (← after? ":" rest)
      return rest
    else none
  | [] => none

/-- The rest after a date, a time of day, or both with or without an offset. -/
def moment? (text : List Char) : Option (List Char) :=
  match date? text with
  | none => time? text
  | some rest =>
    let timed : Option (List Char) :=
      match rest with
      | c :: rest => if c = 'T' ∨ c = 't' ∨ c = ' ' then time? rest else none
      | [] => none
    match timed with
    | none => some rest
    | some rest => some ((offset? rest).getD rest)

/-- The member under which a date is found, since structured data has none. -/
def momentName : String := "$__toml_private_datetime"

def number? (text : List Char) : Option (Json × List Char) :=
  match moment? text with
  | some rest =>
    let shown := text.take (text.length - rest.length)
    some (.object [(momentName, .string (String.ofList shown))], rest)
  | none =>
    (real? text <|> special? text).map (fun (value, rest) => (.real value, rest)) <|>
      (integer? text).map fun (value, rest) => (.integer value, rest)

end FreshDocs.Toml
