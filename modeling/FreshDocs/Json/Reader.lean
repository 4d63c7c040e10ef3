import FreshDocs.Json.Value
import FreshDocs.Text.Hex
/-!
Reading structured data. Each reader takes a text and gives what it read and the rest. Values
nest at most 127 deep; a whole number outside 64 bits becomes a real one; a number too large
for a double, half of a surrogate pair or a bare control character is refused.
-/

namespace FreshDocs.Json

def isSpace (c : Char) : Bool :=
  c = ' ' || c = '\n' || c = '\r' || c = '\t'

def skipSpace (text : List Char) : List Char :=
  text.dropWhile isSpace

def word? (word : String) (text : List Char) : Option (List Char) :=
  if word.toList.isPrefixOf text then some (text.drop word.length) else none

def unit? (text : List Char) : Option (Nat × List Char) :=
  if (text.take 4).length = 4 then (Hex.number? (text.take 4)).map (·, text.drop 4) else none

/-- The character of an escape after `\u`; two units may make one character. -/
def unicodeEscape? (text : List Char) : Option (Char × List Char) := do
  let (high, rest) ← unit? text
  if 0xDC00 ≤ high ∧ high < 0xE000 then none
  else if 0xD800 ≤ high ∧ high < 0xDC00 then
    let (low, rest) ← unit? (← word? "\\u" rest)
    if 0xDC00 ≤ low ∧ low < 0xE000 then
      some (Char.ofNat (0x10000 + (high - 0xD800) * 0x400 + (low - 0xDC00)), rest)
    else none
  else some (Char.ofNat high, rest)

/-- The rest of a text in quotes, after the opening one. Every step takes at least one
character, so `fuel` may be the length. -/
def stringRest? : (fuel : Nat) → List Char → Option (List Char × List Char)
  | 0, _ => none
  | fuel + 1, text =>
    match text with
    | '"' :: rest => some ([], rest)
    | '\\' :: c :: rest => do
      let (read, rest) ←
        match c with
        | '"' => some ('"', rest)
        | '\\' => some ('\\', rest)
        | '/' => some ('/', rest)
        | 'b' => some ('\x08', rest)
        | 'f' => some ('\x0c', rest)
        | 'n' => some ('\n', rest)
        | 'r' => some ('\r', rest)
        | 't' => some ('\t', rest)
        | 'u' => unicodeEscape? rest
        | _ => none
      let (chars, rest) ← stringRest? fuel rest
      return (read :: chars, rest)
    | c :: rest =>
      if c.toNat < 32 then none
      else (stringRest? fuel rest).map fun (chars, rest) => (c :: chars, rest)
    | [] => none

def quoted? (text : List Char) : Option (String × List Char) :=
  match text with
  | '"' :: rest => (stringRest? (rest.length + 1) rest).map fun (cs, rest) => (String.ofList cs, rest)
  | _ => none

/-- The double nearest to `digits * 10 ^ exponent`, unless it is too large. -/
def realOfParts? (negative : Bool) (digits : Nat) (exponent : Int) : Option Float :=
  if digits = 0 then some (if negative then -0.0 else 0.0)
  else
    let magnitude : Int := (Nat.toDigits 10 digits).length + exponent
    if 400 < magnitude then none
    else if magnitude < -400 then some (if negative then -0.0 else 0.0)
    else
      let value := Float.ofScientific digits (exponent < 0) exponent.natAbs
      if value.isInf then none else some (if negative then -value else value)

def number? (text : List Char) : Option (Json × List Char) := do
  let negative := text.head? = some '-'
  let text := if negative then text.drop 1 else text
  let whole := text.takeWhile Char.isDigit
  let rest := text.drop whole.length
  if whole.isEmpty || (whole.head? = some '0' && 1 < whole.length) then none
  else
    let (fraction, rest) ←
      match rest with
      | '.' :: rest =>
        let fraction := rest.takeWhile Char.isDigit
        if fraction.isEmpty then none else some (some fraction, rest.drop fraction.length)
      | _ => some (none, rest)
    let (power, rest) ←
      match rest with
      | c :: rest' =>
        if c = 'e' ∨ c = 'E' then
          let (sign, digits) : Int × List Char :=
            match rest' with
            | '+' :: digits => (1, digits)
            | '-' :: digits => (-1, digits)
            | _ => (1, rest')
          let power := digits.takeWhile Char.isDigit
          if power.isEmpty then none
          else some (some (sign * Nat.ofDigitChars 10 power 0), digits.drop power.length)
        else some (none, rest)
      | [] => some (none, rest)
    let magnitude := Nat.ofDigitChars 10 whole 0
    match fraction, power with
    | none, none =>
      if ¬negative ∧ magnitude < UInt64.size then return (.integer magnitude, rest)
      else if negative ∧ 0 < magnitude ∧ magnitude ≤ UInt64.size / 2 then return (.integer (-magnitude), rest)
      else return (.real (← realOfParts? negative magnitude 0), rest)
    | fraction, power =>
      let places := fraction.getD []
      let digits := Nat.ofDigitChars 10 (whole ++ places) 0
      return (.real (← realOfParts? negative digits (power.getD 0 - places.length)), rest)

/-- The items of an array after the first one, up to the bracket; `fuel` bounds their number. -/
def itemsRest? (item : List Char → Option (Json × List Char)) :
    (fuel : Nat) → List Char → Option (List Json × List Char)
  | 0, _ => none
  | fuel + 1, text =>
    match skipSpace text with
    | ']' :: rest => some ([], rest)
    | ',' :: rest => do
      let (first, rest) ← item rest
      let (others, rest) ← itemsRest? item fuel rest
      return (first :: others, rest)
    | _ => none

def pair? (item : List Char → Option (Json × List Char)) (text : List Char) :
    Option ((String × Json) × List Char) := do
  let (name, rest) ← quoted? (skipSpace text)
  match skipSpace rest with
  | ':' :: rest =>
    let (value, rest) ← item rest
    return ((name, value), rest)
  | _ => none

def membersRest? (item : List Char → Option (Json × List Char)) :
    (fuel : Nat) → List Char → Option (List (String × Json) × List Char)
  | 0, _ => none
  | fuel + 1, text =>
    match skipSpace text with
    | '\x7d' :: rest => some ([], rest)
    | ',' :: rest => do
      let (first, rest) ← pair? item rest
      let (others, rest) ← membersRest? item fuel rest
      return (first :: others, rest)
    | _ => none

/-- A value, blanks before it included. `depth` is one more than the number of containers it
may still open. -/
def value? : (depth : Nat) → List Char → Option (Json × List Char)
  | 0, _ => none
  | depth + 1, text =>
    match skipSpace text with
    | [] => none
    | c :: rest =>
      if c = 'n' then (word? "ull" rest).map (.null, ·)
      else if c = 't' then (word? "rue" rest).map (.bool true, ·)
      else if c = 'f' then (word? "alse" rest).map (.bool false, ·)
      else if c = '"' then (quoted? (c :: rest)).map fun (text, rest) => (.string text, rest)
      else if c = '[' then
        match depth, skipSpace rest with
        | 0, _ => none
        | _, ']' :: rest => some (.array [], rest)
        | _, rest => do
          let (first, rest) ← value? depth rest
          let (others, rest) ← itemsRest? (value? depth) rest.length rest
          return (.array (first :: others), rest)
      else if c = '\x7b' then
        match depth, skipSpace rest with
        | 0, _ => none
        | _, '\x7d' :: rest => some (.object [], rest)
        | _, rest => do
          let (first, rest) ← pair? (value? depth) rest
          let (others, rest) ← membersRest? (value? depth) rest.length rest
          return (.object (first :: others), rest)
      else number? (c :: rest)

/-- The deepest nesting that is read, plus one. -/
def depthLimit : Nat := 128

def parse? (text : String) : Option Json := do
  let (value, rest) ← value? depthLimit text.toList
  if (skipSpace rest).isEmpty then some value else none

end FreshDocs.Json
