/-!
The compression function of the BLAKE3 hash: seven rounds of quarter mixing over sixteen
words, with the message words permuted between rounds.
-/

namespace FreshDocs.Digest

/-- The first eight words of the state before any message. -/
def initialValue : Vector UInt32 8 :=
  #v[0x6A09E667, 0xBB67AE85, 0x3C6EF372, 0xA54FF53A,
     0x510E527F, 0x9B05688C, 0x1F83D9AB, 0x5BE0CD19]

/-- Where each message word of a round comes from in the round before. -/
def permutation : Vector (Fin 16) 16 :=
  #v[2, 6, 3, 10, 7, 0, 4, 13, 1, 11, 12, 5, 9, 14, 15, 8]

def rotateRight (word : UInt32) (count : UInt32) : UInt32 :=
  (word >>> count) ||| (word <<< (32 - count))

/-- Mixes four words of the state with two message words. -/
def quarter (state : Vector UInt32 16) (a b c d : Fin 16) (x y : UInt32) : Vector UInt32 16 :=
  let state := state.set a (state[a] + state[b] + x)
  let state := state.set d (rotateRight (state[d] ^^^ state[a]) 16)
  let state := state.set c (state[c] + state[d])
  let state := state.set b (rotateRight (state[b] ^^^ state[c]) 12)
  let state := state.set a (state[a] + state[b] + y)
  let state := state.set d (rotateRight (state[d] ^^^ state[a]) 8)
  let state := state.set c (state[c] + state[d])
  state.set b (rotateRight (state[b] ^^^ state[c]) 7)

/-- Columns, then diagonals. -/
def round (state message : Vector UInt32 16) : Vector UInt32 16 :=
  let state := quarter state 0 4 8 12 message[0] message[1]
  let state := quarter state 1 5 9 13 message[2] message[3]
  let state := quarter state 2 6 10 14 message[4] message[5]
  let state := quarter state 3 7 11 15 message[6] message[7]
  let state := quarter state 0 5 10 15 message[8] message[9]
  let state := quarter state 1 6 11 12 message[10] message[11]
  let state := quarter state 2 7 8 13 message[12] message[13]
  quarter state 3 4 9 14 message[14] message[15]

def permute (message : Vector UInt32 16) : Vector UInt32 16 :=
  permutation.map (message[·])

def rounds : Nat → Vector UInt32 16 → Vector UInt32 16 → Vector UInt32 16
  | 0, state, _ => state
  | count + 1, state, message => rounds count (round state message) (permute message)

/-- One block of input together with all that its compression depends on. -/
structure Block where
  chaining : Vector UInt32 8
  message : Vector UInt32 16
  counter : UInt64
  length : UInt32
  flags : UInt32

namespace Block

def compress (block : Block) : Vector UInt32 16 :=
  let cv := block.chaining
  let start : Vector UInt32 16 :=
    #v[cv[0], cv[1], cv[2], cv[3], cv[4], cv[5], cv[6], cv[7],
       initialValue[0], initialValue[1], initialValue[2], initialValue[3],
       block.counter.toUInt32, (block.counter >>> 32).toUInt32, block.length, block.flags]
  let state := rounds 7 start block.message
  Vector.ofFn fun i =>
    if h : i.val < 8 then state[i] ^^^ state[i.val + 8]
    else state[i] ^^^ cv[i.val - 8]

/-- The eight words that stand for the block in what comes after it. -/
def chainingValue (block : Block) : Vector UInt32 8 :=
  let state := block.compress
  Vector.ofFn fun i => state[i.val]

end Block
end FreshDocs.Digest
