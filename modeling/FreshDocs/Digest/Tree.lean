import FreshDocs.Digest.Compression
/-!
The BLAKE3 tree. Input is cut into chunks of 1024 bytes, a chunk into blocks of 64; the chunks
are the leaves of a binary tree whose left subtrees are full, and the root is flagged.
-/

namespace FreshDocs.Digest

namespace Flag

def chunkStart : UInt32 := 1
def chunkEnd : UInt32 := 2
def parent : UInt32 := 4
def root : UInt32 := 8

end Flag

def chunkLength : Nat := 1024
def blockLength : Nat := 64

/-- A byte of the input, zero beyond its end. -/
def byteAt (input : ByteArray) (index : Nat) : UInt32 :=
  if h : index < input.size then input[index].toUInt32 else 0

/-- The little-endian word at `index`, where bytes from `stop` on count as zero. -/
def wordAt (input : ByteArray) (stop index : Nat) : UInt32 :=
  let byte i := if i < stop then byteAt input i else 0
  byte index ||| (byte (index + 1) <<< 8) ||| (byte (index + 2) <<< 16) |||
    (byte (index + 3) <<< 24)

/-- The blocks of a chunk after `done` of them: the last is left uncompressed, so that its
user can flag it as the root. `left` bounds the number of further blocks. -/
def chunkFrom (input : ByteArray) (counter : UInt64) (stop : Nat) :
    (left : Nat) → (start : Nat) → (flags : UInt32) → Vector UInt32 8 → Block
  | left, start, flags, chaining =>
    let stopHere := min stop (start + blockLength)
    let block : Block :=
      { chaining, counter, flags
        message := Vector.ofFn fun i => wordAt input stopHere (start + 4 * i.val)
        length := UInt32.ofNat (stopHere - start) }
    match left with
    | 0 => { block with flags := flags ||| Flag.chunkEnd }
    | left + 1 =>
      if stop ≤ start + blockLength then { block with flags := flags ||| Flag.chunkEnd }
      else chunkFrom input counter stop left (start + blockLength) 0 block.chainingValue

/-- The last block of chunk number `index`. -/
def chunk (input : ByteArray) (index : Nat) : Block :=
  let start := index * chunkLength
  chunkFrom input (UInt64.ofNat index) (min input.size (start + chunkLength))
    (chunkLength / blockLength) start Flag.chunkStart initialValue

def parentBlock (left right : Vector UInt32 8) : Block :=
  { chaining := initialValue
    message := left ++ right
    counter := 0
    length := UInt32.ofNat blockLength
    flags := Flag.parent }

/-- The number of chunks in the left subtree over `count` chunks: the largest power of two
below `count`. -/
def leftCount (count : Nat) : Nat :=
  1 <<< (count - 1).log2

theorem leftCount_pos (count : Nat) : 0 < leftCount count := by
  rw [leftCount, Nat.one_shiftLeft]
  exact Nat.two_pow_pos _

theorem leftCount_lt {count : Nat} (several : 2 ≤ count) : leftCount count < count := by
  have := Nat.log2_self_le (n := count - 1) (by omega)
  rw [leftCount, Nat.one_shiftLeft]
  omega

/-- The top block over `count` chunks from number `first` on. -/
def top (input : ByteArray) (first count : Nat) : Block :=
  if _ : 2 ≤ count then
    let left := leftCount count
    parentBlock (top input first left).chainingValue
      (top input (first + left) (count - left)).chainingValue
  else chunk input first
termination_by count
decreasing_by
  · exact leftCount_lt ‹2 ≤ count›
  · exact Nat.sub_lt (Nat.lt_of_lt_of_le Nat.two_pos ‹2 ≤ count›) (leftCount_pos count)

def wordBytes (word : UInt32) : List UInt8 :=
  [word.toUInt8, (word >>> 8).toUInt8, (word >>> 16).toUInt8, (word >>> 24).toUInt8]

def hashWords (input : ByteArray) : Vector UInt32 8 :=
  let count := max 1 ((input.size + chunkLength - 1) / chunkLength)
  let block := top input 0 count
  { block with flags := block.flags ||| Flag.root }.chainingValue

end FreshDocs.Digest
