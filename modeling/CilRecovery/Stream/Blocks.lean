import CilRecovery.Cipher.PublicKey

/-!
A resource encrypted block by block. The payloads of the blocks follow each other and form the
logical stream, which starts with a length header of four bytes. Blocks are decrypted on demand,
kept once decrypted, and the logical starts of the leading blocks are known as far as they have
been asked for.
-/
namespace CilRecovery.Stream

open Cipher (PublicKey)

/-- A block resource with what has been decrypted of it. -/
structure Blocks where
  key : PublicKey
  data : Bytes
  /-- The payloads decrypted so far, by block. -/
  cache : List (Nat × Bytes) := []
  /-- The logical starts of the leading blocks and the end of the last of them. -/
  offsets : List Nat := [0]
  payloadLength : Nat := 0
  /-- The number of decryptions tried. -/
  decryptions : Nat := 0
  deriving DecidableEq, Repr

/-- An operation that may decrypt blocks. What it decrypted stays, whether or not it succeeds. -/
abbrev BlocksM := ExceptT Error (StateM Blocks)

namespace Blocks

/-- The size of the length header. -/
def headerSize : Nat := 4

def count (blocks : Blocks) : Nat := blocks.data.length / blocks.key.blockSize

/-- Decrypts a block without asking or filling the cache. -/
def decryptUncached (index : Nat) : BlocksM Bytes := do
  let blocks ← get
  let start := index * blocks.key.blockSize
  if start < blocks.data.length then
    set { blocks with decryptions := blocks.decryptions + 1 }
    liftExcept (blocks.key.decryptBlock (blocks.data.slice start blocks.key.blockSize))
  else throw .outOfBounds
where
  liftExcept : Except Error Bytes → BlocksM Bytes
    | .ok payload => pure payload
    | .error e => throw e

/-- The payload of a block, decrypted when first asked for. -/
def block (index : Nat) : BlocksM Bytes := do
  match (← get).cache.lookup index with
  | some payload => pure payload
  | none =>
    let payload ← decryptUncached index
    modify fun blocks => { blocks with cache := (index, payload) :: blocks.cache }
    pure payload

/-- The block that holds a logical position, among the blocks with known starts, and the place in
it. -/
def search? (offsets : List Nat) (position : Nat) : Option (Nat × Nat) :=
  if position < offsets.getLastD 0 then
    let index := (offsets.takeWhile (· ≤ position)).length - 1
    some (index, position - offsets.getD index 0)
  else none

/-- Looks a logical position up, learning the starts of up to `unknown` further blocks. -/
def locateWithin (position : Nat) : (unknown : Nat) → BlocksM (Option (Nat × Nat))
  | 0 => return search? (← get).offsets position
  | unknown + 1 => do
    match search? (← get).offsets position with
    | some found => return some found
    | none =>
      let offsets := (← get).offsets
      let payload ← block (offsets.length - 1)
      let finish := offsets.getLastD 0 + payload.length
      modify fun blocks => { blocks with offsets := offsets ++ [finish] }
      locateWithin position unknown

/-- The block that holds a logical position and the place in it, absent past the last block. -/
def locate (position : Nat) : BlocksM (Option (Nat × Nat)) := do
  let blocks ← get
  locateWithin position (blocks.count - (blocks.offsets.length - 1))

/-- Reads the length header, which must not announce more than full blocks could hold. -/
def lengthHeader : BlocksM Nat := do
  let first ← block 0
  if first.length < headerSize then throw (.crypto "First block too short for the length header")
  let length := Bytes.toNat (first.take headerSize)
  let blocks ← get
  if length + headerSize > blocks.count * (blocks.key.blockSize - 3) then
    throw (.crypto ("Length header " ++ toString length ++ " exceeds resource capacity"))
  return length

/-- Opens a resource by reading its length header. -/
def ofResource (key : PublicKey) (data : Bytes) : Except Error Blocks :=
  if data.isEmpty || data.length % key.blockSize != 0 then
    .error (.crypto ("Resource of " ++ toString data.length ++ " bytes is not a sequence of " ++
      toString key.blockSize ++ "-byte blocks"))
  else
    match lengthHeader.run.run { key, data } with
    | (.ok length, blocks) => .ok { blocks with payloadLength := length }
    | (.error e, _) => .error e

/-- Reads at most `count` bytes from one position of the payload, and never past the end of the
block that it falls in. -/
def readAt (position count : Nat) : BlocksM Bytes := do
  let remaining := (← get).payloadLength - position
  if remaining = 0 ∨ count = 0 then return []
  match ← locate (position + headerSize) with
  | none => return []
  | some (index, offset) =>
    let payload ← block index
    return payload.slice offset (min remaining count)

end Blocks

end CilRecovery.Stream
