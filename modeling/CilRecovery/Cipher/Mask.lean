import CilRecovery.Bytes

/-!
The mask over a stream: each byte is combined with the low byte of a key and a counter. The
counter follows the position in the stream, or restarts from a value at some position.
-/
namespace CilRecovery.Cipher

/-- How the counter of a byte follows from its position. -/
inductive CounterRule where
  /-- The counter is the position. -/
  | position
  /-- The counter is `seed` at `origin` and grows with the position. -/
  | restarted (origin : UInt64) (seed : UInt32)
  deriving DecidableEq, Repr, Inhabited

def CounterRule.counterAt : CounterRule → UInt64 → UInt32
  | position, at_ => at_.toUInt32
  | restarted origin seed, at_ => seed + (at_ - origin).toUInt32

/-- Masks bytes, the first of which has the given counter. Masking twice gives the bytes back. -/
def mask (key : UInt32) : (counter : UInt32) → Bytes → Bytes
  | _, [] => []
  | counter, b :: rest => (b ^^^ (key ^^^ counter).toUInt8) :: mask key (counter + 1) rest

end CilRecovery.Cipher
