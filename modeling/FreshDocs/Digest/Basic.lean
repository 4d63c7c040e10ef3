import FreshDocs.Digest.Tree
import FreshDocs.Text.Hex
import FreshDocs.Text.Inspect
import FreshDocs.Json.Value
/-!
Digests: the identity of a piece of content. A stored result is served only while its digest
is that of the live content. A digest is written as 64 hexadecimal digits and read in either
case.
-/

namespace FreshDocs

/-- A digest of 32 bytes. -/
structure Digest where
  bytes : Vector UInt8 32
  deriving DecidableEq

namespace Digest

/-- The digest of a piece of content: its BLAKE3 hash. -/
def ofBytes (input : ByteArray) : Digest :=
  let words := hashWords input
  ⟨Vector.ofFn fun i => (wordBytes words[i.val / 4])[i.val % 4]?.getD 0⟩

def ofText (text : String) : Digest :=
  ofBytes text.toUTF8

def toList (digest : Digest) : List UInt8 :=
  digest.bytes.toList

def toText (digest : Digest) : String :=
  String.ofList (Hex.encode digest.toList)

def short (digest : Digest) : String :=
  String.ofList (Hex.encode (digest.toList.take 8))

/-- The order of digests is that of their bytes. -/
instance : Ord Digest where
  compare a b := compare a.toList b.toList

/-- Why a text is no digest. -/
inductive Fault where
  | notHex (fault : Hex.Fault)
  | wrongLength (actual : Nat)
  deriving DecidableEq

/-- The words for a fault. A byte that is no digit is shown as the character of its number. -/
def Fault.message : Fault → String
  | .notHex .oddLength => "hex decode error: Odd number of digits"
  | .notHex (.badDigit byte position) =>
    let shown := Text.inspectQuotedChar (Char.ofNat byte.toNat)
    s!"hex decode error: Invalid character {shown} at position {position}"
  | .wrongLength actual => s!"invalid hash length: expected 32, got {actual}"

def parse (text : String) : Except Fault Digest :=
  match Hex.decode text.toUTF8.toList with
  | .error fault => .error (.notHex fault)
  | .ok bytes =>
    if exact : bytes.length = 32 then .ok ⟨⟨bytes.toArray, by simpa using exact⟩⟩
    else .error (.wrongLength bytes.length)

instance : ToJson Digest := ⟨fun digest => .string digest.toText⟩

/-- Reads a digest from structured data, where it is a text. -/
def ofJson? (value : Json) : Option Digest :=
  value.string?.bind fun text => (parse text).toOption

end Digest
end FreshDocs
