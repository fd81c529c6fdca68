import CilRecovery.Cil.Body
import CilRecovery.Error
import CilRecovery.Table

/-!
The instructions decoded so far, with branches that still name virtual offsets and a table from
virtual offsets to instructions. Decoding may stop at a placeholder, which is then the last
instruction.
-/
namespace CilRecovery

/-- Why decoding stopped before the end. -/
inductive StopReason where
  /-- The code is in no row of the handler table. -/
  | unknownCode
  /-- No rule identified the handler of the code. -/
  | unidentified
  deriving DecidableEq, Repr

def StopReason.name : StopReason → String
  | unknownCode => "UnknownCode"
  | unidentified => "Unidentified"

/-- Where and why decoding stopped. -/
structure DecodeStop where
  reason : StopReason
  /-- Virtual offset of the instruction. -/
  offset : Nat
  code : Nat
  /-- Virtual offset after all that was read of it. -/
  finish : Nat
  deriving DecidableEq, Repr

/-- Only an unknown code is an error: its width is not known, so nothing after it can be read. -/
def DecodeStop.error? (stop : DecodeStop) : Option Error :=
  match stop.reason with
  | .unknownCode => some (.streamDesync stop.offset stop.code)
  | .unidentified => none

/-- What is said of an early stop. -/
def DecodeStop.message (stop : DecodeStop) : String :=
  match stop.error? with
  | some e => e.message
  | none =>
    "Unidentified opcode 0x" ++ Text.hex 0 stop.code ++ " at virtual offset 0x" ++
      Text.hex 0 stop.offset

/-- A branch whose targets are virtual offsets. -/
structure RawBranch where
  /-- The place of the branch among the instructions. -/
  index : Nat
  targets : List Nat
  isSwitch : Bool := false
  deriving DecidableEq, Repr

structure DecodedBody where
  instructions : List Instruction := []
  branches : List RawBranch := []
  /-- The instruction that stands at a virtual offset, or the next one where nothing was emitted. -/
  offsets : Table Nat Label := {}
  stop : Option DecodeStop := none
  /-- How many bytes of code the method declares. -/
  length : Nat := 0
  /-- Offsets of virtual instructions without effect since the last emitted instruction. -/
  pending : List Nat := []
  deriving DecidableEq

namespace DecodedBody

instance : Inhabited DecodedBody := ⟨{}⟩

def isDegraded (body : DecodedBody) : Bool := body.stop.isSome

/-- The place of the placeholder at which decoding stopped. -/
def placeholder? (body : DecodedBody) : Option Label :=
  if body.isDegraded && !body.instructions.isEmpty then some (body.instructions.length - 1)
  else none

def index? (body : DecodedBody) (offset : Nat) : Option Label := body.offsets.get? offset

/-- Lets the pending offsets stand for the next instruction. -/
def settle (body : DecodedBody) : DecodedBody :=
  let next := body.instructions.length
  { body with
    offsets := body.pending.foldl (fun offsets offset => offsets.insert offset next) body.offsets
    pending := [] }

/-- Adds the instruction at a virtual offset. -/
def emit (body : DecodedBody) (offset : Nat) (instruction : Instruction) : DecodedBody :=
  let settled := body.settle
  { settled with
    offsets := settled.offsets.insert offset settled.instructions.length
    instructions := settled.instructions ++ [{ instruction with virtualOffset := some offset }] }

/-- Adds a branch instruction whose targets are virtual offsets. -/
def emitBranch (body : DecodedBody) (offset : Nat) (instruction : Instruction)
    (targets : List Nat) (isSwitch : Bool) : DecodedBody :=
  let branch : RawBranch := ⟨body.instructions.length, targets, isSwitch⟩
  { body with branches := body.branches ++ [branch] }.emit offset instruction

/-- Notes a virtual instruction without effect. -/
def skip (body : DecodedBody) (offset : Nat) : DecodedBody :=
  { body with pending := body.pending ++ [offset] }

/-- Ends the body at a placeholder. -/
def stopAt (body : DecodedBody) (stop : DecodeStop) : DecodedBody :=
  { body.emit stop.offset (.placeholder stop.code stop.offset) with stop := some stop }

end DecodedBody

end CilRecovery
