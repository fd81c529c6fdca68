import CilRecovery.Cipher.Mask
import CilRecovery.Recovery.Password

/-!
What a run can be told: passwords, how counters are seeded, and what becomes of its results.
-/
namespace CilRecovery

/-- Where the counter of a stream starts. -/
inductive CounterMode where
  /-- The counter is the position in the stream. -/
  | position
  /-- The counter restarts from the key of the method at hand. -/
  | methodKey
  deriving DecidableEq, Repr

def CounterMode.name : CounterMode → String
  | position => "Position"
  | methodKey => "MethodKey"

/-- How the counters of the two streams are seeded. -/
structure CounterPolicy where
  resolver : CounterMode := .position
  methodBody : CounterMode := .methodKey
  deriving DecidableEq, Repr

namespace CounterPolicy

/-- The counter rule for operand records used by a method with some seed. -/
def resolverRule (policy : CounterPolicy) (seed : UInt32) : Cipher.CounterRule :=
  match policy.resolver with
  | .position => .position
  | .methodKey => .restarted 0 seed

/-- The counter rule for the record of a method. -/
def methodRule (policy : CounterPolicy) (origin : UInt64) (seed : UInt32) : Cipher.CounterRule :=
  match policy.methodBody with
  | .position => .position
  | .methodKey => .restarted origin seed

end CounterPolicy

/-- What becomes of the results. -/
structure OutputOptions where
  preserveTokens : Bool := false
  /-- Mark every recovered body as exempt from verification. -/
  skipVerification : Bool := false
  /-- Save even if some methods failed. -/
  saveAnyway : Bool := false
  /-- Replace the bodies of fully recovered methods only. -/
  onlyRecovered : Bool := false
  deriving DecidableEq, Repr

structure Settings where
  passwords : PasswordStore := {}
  counters : CounterPolicy := {}
  /-- Whether guarded ranges are decrypted. -/
  chainCipher : Bool := true
  output : OutputOptions := {}
  /-- How deep operand records may refer to each other. -/
  maxDepth : Nat := 32
  /-- Whether handlers are classified at the same time. -/
  parallel : Bool := true
  /-- Of several handlers that cannot be classified, the one whose failure is noticed if they are
  classified at the same time. Nothing fixes it. -/
  noticed : Nat := 0
  deriving DecidableEq

namespace Settings

instance : Inhabited Settings := ⟨{}⟩

/-- Replaces fully recovered bodies only. -/
def strict : Settings := { output := { onlyRecovered := true } }

/-- Saves whatever was recovered. -/
def lenient : Settings := { output := { saveAnyway := true } }

/-- Of several handlers that cannot be classified, the one whose failure ends the run: the first
one, unless they are classified at the same time. -/
def noticedFailure (settings : Settings) : Nat :=
  if settings.parallel then settings.noticed else 0

end Settings

end CilRecovery
