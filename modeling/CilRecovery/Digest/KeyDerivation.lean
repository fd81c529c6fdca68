import CilRecovery.Digest.Sha1

/-!
Keyed digests and the derivation of key material from a password: PBKDF2 over HMAC-SHA1.
-/
namespace CilRecovery.Digest

/-- A key of HMAC-SHA1, held as the chaining values after its two padded blocks. -/
structure MacKey where
  inner : Sha1.State
  outer : Sha1.State

namespace MacKey

def ofBytes (key : Bytes) : MacKey :=
  let short := if key.length > Sha1.blockSize then Sha1.digest key else key
  let block := short ++ List.replicate (Sha1.blockSize - short.length) 0
  { inner := Sha1.compress .initial (block.map (· ^^^ 0x36))
    outer := Sha1.compress .initial (block.map (· ^^^ 0x5C)) }

def mac (key : MacKey) (message : Bytes) : Bytes :=
  Sha1.finish key.outer Sha1.blockSize (Sha1.finish key.inner Sha1.blockSize message)

end MacKey

/-- Adds the iterated digests of `last` to `sum`, byte by byte modulo two. -/
def stretch (key : MacKey) : (rounds : Nat) → (last sum : Bytes) → Bytes
  | 0, _, sum => sum
  | rounds + 1, last, sum =>
    let next := key.mac last
    stretch key rounds next (List.zipWith (· ^^^ ·) sum next)

/-- `length` bytes derived from a password. -/
def deriveKey (password salt : Bytes) (iterations length : Nat) : Bytes :=
  let key := MacKey.ofBytes password
  let block (index : Nat) : Bytes :=
    let first := key.mac (salt ++ Bytes.ofNatBE 4 (index + 1))
    stretch key (iterations - 1) first first
  ((List.range ((length + 19) / 20)).flatMap block).take length

end CilRecovery.Digest
