import CilRecovery.Metadata.Host
import CilRecovery.Permutation.Arrangements
import CilRecovery.Permutation.Basic

/-!
Finding permutations: from the body of a method that puts a number together byte by byte, or
from encodings whose values are known.
-/
namespace CilRecovery

/-- Whether an instruction loads a buffer of bytes. -/
def Instruction.isBufferLoad (instruction : Instruction) : Bool :=
  instruction.opcode.isLoadLocal || instruction.opcode.isLoadArg ||
    instruction.opcode == .ldfld || instruction.opcode == .ldsfld

/-- Whether an instruction reads the next byte of a stream. -/
def Instruction.isReadByte (instruction : Instruction) : Bool :=
  instruction.opcode.isCall && instruction.method?.any fun method => method.name == "ReadByte"

namespace Permutation

/-- The shift applied to a byte by the instructions after it, conversions skipped. Absent where
the distance is no constant. -/
def shiftAfter? (rest : List Instruction) : Option Int32 :=
  match rest.dropWhile fun instruction => instruction.opcode.isConversion with
  | constant :: shift :: _ =>
    if shift.opcode = .shl then constant.i4Constant? else some 0
  | _ => some 0

/-- What is known of a permutation while a body is read. -/
structure Placement where
  /-- The place in the number of each byte of the stream. -/
  slots : List (Option Nat)
  /-- How many bytes were read in sequence. -/
  sequential : Nat := 0
  placed : Nat := 0

namespace Placement

/-- Which byte of the stream an instruction produces, given the two before it, the nearer first. -/
def streamIndex? (placement : Placement) (before : List Instruction) (instruction : Instruction) :
    Option Nat :=
  match instruction.opcode, before with
  | .ldelemU1, constant :: buffer :: _ =>
    match constant.i4Constant? with
    | some k => if buffer.isBufferLoad && decide (0 ≤ k.toInt) then some k.toInt.toNat else none
    | none => none
  | _, _ => if instruction.isReadByte then some placement.sequential else none

/-- Puts a byte of the stream at a place of the number. -/
def place (placement : Placement) (index : Nat) (shift : Int) : Except Error Placement :=
  let width := placement.slots.length
  if shift < 0 ∨ shift % 8 ≠ 0 ∨ (width : Int) ≤ shift / 8 then
    .error (.bootstrap ("Reader helper shifts byte " ++ toString index ++ " by " ++ toString shift))
  else
    match placement.slots.getD index (some 0) with
    | none =>
      .ok { placement with
        slots := placement.slots.set index (some (shift / 8).toNat)
        placed := placement.placed + 1 }
    | some _ =>
      .error (.bootstrap
        ("Reader helper reads byte " ++ toString index ++ " twice or out of range"))

/-- Reads a body, `before` holding the instructions already read, the nearest first. -/
def scan (placement : Placement) (before : List Instruction) :
    List Instruction → Except Error Placement
  | [] => .ok placement
  | instruction :: rest =>
    let counted :=
      if instruction.isReadByte then { placement with sequential := placement.sequential + 1 }
      else placement
    match placement.streamIndex? before instruction with
    | none => scan counted (instruction :: before) rest
    | some index => do
      let shift := ((shiftAfter? rest).map Int32.toInt).getD (-1)
      let next ← counted.place index shift
      scan next (instruction :: before) rest

end Placement

/-- The permutation that the body of a reading method reveals. -/
def ofReaderBody (body : List Instruction) (width : Nat) : Except Error Permutation := do
  let final ← Placement.scan { slots := List.replicate width none } [] body
  if final.placed ≠ width then
    throw (.bootstrap ("Reader helper places " ++ toString final.placed ++ " bytes, expected " ++
      toString width))
  match final.slots.mapM id with
  | some order => ofOrder order
  | none => throw (.bootstrap "Reader helper leaves a byte unplaced")

end Permutation

/-- An encoding whose value is known. -/
structure Sample where
  stream : Bytes
  value : Nat
  deriving DecidableEq, Repr

namespace Permutation

/-- The number that bytes stand for when their order is as given. -/
def decodeWith : (order : List Nat) → (stream : Bytes) → Nat
  | place :: order, b :: stream => b.toNat <<< (8 * place) + decodeWith order stream
  | _, _ => 0

/-- The one permutation that gives every sample its value. -/
def ofSamples (width : Nat) (samples : List Sample) : Except Error Permutation :=
  if width ∉ widths then
    .error (.bootstrap ("Unsupported primitive width " ++ toString width))
  else if samples.any fun sample => sample.stream.length != width then
    .error (.bootstrap ("Test vector width differs from " ++ toString width))
  else
    let fits (order : List Nat) : Bool :=
      samples.all fun sample => decodeWith order sample.stream == sample.value
    -- A second permutation that fits is enough to know that there is not one alone.
    match ((arrangements (List.range width)).filter fits).take 2 with
    | [order] => ofOrder order
    | [] =>
      .error (.bootstrap ("No " ++ toString width ++ "-byte permutation matches the test vectors"))
    | _ =>
      .error (.bootstrap
        ("Test vectors do not determine a unique " ++ toString width ++ "-byte permutation"))

end Permutation

/-- Where the permutations of a profile come from. -/
inductive ProfileSource where
  /-- The methods that read numbers of two, four and eight bytes. -/
  | helpers (two four eight : Token)
  | known (profile : Profile)
  | samples (known : List Sample)

namespace ProfileSource

/-- The permutation of the reading method with a token. -/
def ofHelper (host : Host) (width : Nat) (token : Token) : Except Error Permutation :=
  match host.methodBody? token with
  | some body => Permutation.ofReaderBody body width
  | none => .error (.bootstrap ("Reader helper " ++ token.render ++ " has no body"))

def profile (host : Host) : ProfileSource → Except Error Profile
  | .known profile => .ok profile
  | .helpers two four eight => do
    let two ← ofHelper host 2 two
    let four ← ofHelper host 4 four
    let eight ← ofHelper host 8 eight
    Profile.ofPermutations two four eight
  | .samples vectors => do
    let pick (width : Nat) := Permutation.ofSamples width
      (vectors.filter fun sample => sample.stream.length == width)
    let two ← pick 2
    let four ← pick 4
    let eight ← pick 8
    Profile.ofPermutations two four eight

end ProfileSource

end CilRecovery
