import CilRecovery.Bytes

/-!
The digest SHA-1, with its chaining value exposed so that a keyed digest can start from a value
prepared once.
-/
namespace CilRecovery.Digest.Sha1

/-- The chaining value. -/
structure State where
  a : UInt32
  b : UInt32
  c : UInt32
  d : UInt32
  e : UInt32
  deriving DecidableEq, Repr

def State.initial : State :=
  ⟨0x67452301, 0xEFCDAB89, 0x98BADCFE, 0x10325476, 0xC3D2E1F0⟩

def State.add (x y : State) : State :=
  ⟨x.a + y.a, x.b + y.b, x.c + y.c, x.d + y.d, x.e + y.e⟩

def rotateLeft (word count : UInt32) : UInt32 :=
  (word <<< count) ||| (word >>> (32 - count))

/-- The number of bytes in a block. -/
def blockSize : Nat := 64

/-- The words of a run of bytes, most significant byte first. -/
def words : Bytes → List UInt32
  | p :: q :: r :: s :: rest =>
    ((p.toUInt32 <<< 24) ||| (q.toUInt32 <<< 16) ||| (r.toUInt32 <<< 8) ||| s.toUInt32) ::
      words rest
  | _ => []

/-- The bytes of a word, most significant first. -/
def wordBytes (word : UInt32) : Bytes :=
  [(word >>> 24).toUInt8, (word >>> 16).toUInt8, (word >>> 8).toUInt8, word.toUInt8]

/-- Extends sixteen words to the eighty that the rounds use. -/
def schedule (block : List UInt32) : Array UInt32 :=
  (List.range 64).foldl
    (fun w i => w.push (rotateLeft
      (w.getD (i + 13) 0 ^^^ w.getD (i + 8) 0 ^^^ w.getD (i + 2) 0 ^^^ w.getD i 0) 1))
    block.toArray

/-- The mixing function of a round. -/
def mix (round : Nat) (b c d : UInt32) : UInt32 :=
  if round < 20 then (b &&& c) ||| (~~~b &&& d)
  else if round < 40 then b ^^^ c ^^^ d
  else if round < 60 then (b &&& c) ||| (b &&& d) ||| (c &&& d)
  else b ^^^ c ^^^ d

/-- The constant of a round. -/
def constant (round : Nat) : UInt32 :=
  if round < 20 then 0x5A827999
  else if round < 40 then 0x6ED9EBA1
  else if round < 60 then 0x8F1BBCDC
  else 0xCA62C1D6

def step (w : Array UInt32) (s : State) (round : Nat) : State :=
  let a := rotateLeft s.a 5 + mix round s.b s.c s.d + s.e + constant round + w.getD round 0
  ⟨a, s.a, rotateLeft s.b 30, s.c, s.d⟩

/-- Mixes one block into the chaining value. -/
def compress (state : State) (block : Bytes) : State :=
  state.add ((List.range 80).foldl (step (schedule (words block))) state)

/-- Mixes a number of blocks into the chaining value. -/
def absorb : (count : Nat) → State → Bytes → State
  | 0, state, _ => state
  | count + 1, state, bytes =>
    absorb count (compress state (bytes.take blockSize)) (bytes.drop blockSize)

/-- What follows a message so that it fills whole blocks: a one bit, zeros and its length in
bits. -/
def padding (length : Nat) : Bytes :=
  0x80 :: List.replicate ((119 - length % blockSize) % blockSize) 0 ++ Bytes.ofNatBE 8 (8 * length)

/-- The digest of a message whose first `absorbed` bytes, a number of whole blocks, are already
mixed into `state`. -/
def finish (state : State) (absorbed : Nat) (rest : Bytes) : Bytes :=
  let padded := rest ++ padding (absorbed + rest.length)
  let final := absorb (padded.length / blockSize) state padded
  wordBytes final.a ++ wordBytes final.b ++ wordBytes final.c ++ wordBytes final.d ++
    wordBytes final.e

def digest (message : Bytes) : Bytes :=
  finish .initial 0 message

end CilRecovery.Digest.Sha1
