/-!
Hexadecimal text. A byte is written as two lower-case digits, the high half first; a reader
takes digits of either case, checks that they come in pairs before it looks at any of them,
and names the first byte that is no digit.
-/

namespace FreshDocs.Hex

/-- The digit of a value below sixteen. -/
def digit (value : Nat) : Char :=
  if value < 10 then Char.ofNat (48 + value) else Char.ofNat (87 + value)

def encodeByte (byte : UInt8) : List Char :=
  [digit (byte.toNat / 16), digit (byte.toNat % 16)]

def encode (bytes : List UInt8) : List Char :=
  bytes.flatMap encodeByte

def value? (byte : UInt8) : Option Nat :=
  let code := byte.toNat
  if 48 ≤ code ∧ code ≤ 57 then some (code - 48)
  else if 97 ≤ code ∧ code ≤ 102 then some (code - 87)
  else if 65 ≤ code ∧ code ≤ 70 then some (code - 55)
  else none

/-- Why a text is no sequence of bytes. -/
inductive Fault where
  | oddLength
  | badDigit (byte : UInt8) (position : Nat)
  deriving DecidableEq

/-- Reads pairs of digits; `position` is that of the first byte of `text`. -/
def decodePairs (position : Nat) : List UInt8 → Except Fault (List UInt8)
  | high :: low :: rest =>
    match value? high, value? low with
    | none, _ => .error (.badDigit high position)
    | _, none => .error (.badDigit low (position + 1))
    | some h, some l =>
      (decodePairs (position + 2) rest).map (UInt8.ofNat (16 * h + l) :: ·)
  | _ => .ok []

def decode (text : List UInt8) : Except Fault (List UInt8) :=
  if text.length % 2 = 1 then .error .oddLength else decodePairs 0 text

/-- The number written by hexadecimal digits, most significant first. -/
def number? (digits : List Char) : Option Nat :=
  digits.foldl (fun sum c => do
    let total ← sum
    if 127 < c.toNat then none
    let value ← value? (UInt8.ofNat c.toNat)
    return 16 * total + value) (some 0)

end FreshDocs.Hex
