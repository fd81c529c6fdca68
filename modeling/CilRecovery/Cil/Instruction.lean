import CilRecovery.Cil.OpCode
import CilRecovery.Metadata.Member

/-!
Instructions with resolved operands. Branch targets are labels: places in the list of
instructions of the same method.
-/
namespace CilRecovery

/-- The place of an instruction in its body. The length of the body stands for its end. -/
abbrev Label := Nat

def Label.render (label : Label) : String :=
  let digits := toString label
  "IL_" ++ String.ofList (List.replicate (4 - digits.length) '0') ++ digits

/-- A number inside an instruction. Floating point numbers are kept as their bits. -/
inductive Immediate where
  | int8 (value : Int8)
  | uint8 (value : UInt8)
  | int32 (value : Int32)
  | int64 (value : Int64)
  | float32 (bits : UInt32)
  | float64 (bits : UInt64)
  deriving DecidableEq, Repr

namespace Immediate

/-- The number as 64 bits, signed numbers extended by their sign. -/
def bits : Immediate → UInt64
  | int8 value => value.toInt64.toUInt64
  | uint8 value => value.toUInt64
  | int32 value => value.toInt64.toUInt64
  | int64 value => value.toUInt64
  | float32 bits => bits.toUInt64
  | float64 bits => bits

def isFloat : Immediate → Bool
  | float32 _ | float64 _ => true
  | _ => false

def render : Immediate → String
  | int8 value => "Int8(" ++ toString value.toInt ++ ")"
  | uint8 value => "UInt8(" ++ toString value.toNat ++ ")"
  | int32 value => "Int32(" ++ toString value.toInt ++ ")"
  | int64 value => "Int64(" ++ toString value.toInt ++ ")"
  | float32 bits => "Float32(0x" ++ Text.hex 8 bits.toNat ++ ")"
  | float64 bits => "Float64(0x" ++ Text.hex 16 bits.toNat ++ ")"

end Immediate

inductive Operand where
  | none
  | immediate (value : Immediate)
  | local (index : Nat)
  | argument (index : Nat)
  | target (label : Label)
  | switch (labels : List Label)
  | type (sig : TypeSig)
  | field (ref : FieldRef)
  | method (ref : MethodRef)
  | string (text : String)
  | token (value : Resolved)
  /-- Stands in for a virtual instruction that was not recovered. -/
  | placeholder (code : Nat)
  deriving DecidableEq, Repr

structure Instruction where
  opcode : OpCode
  operand : Operand := .none
  /-- Where the virtual instruction stood in the bytes of the method. -/
  virtualOffset : Option Nat := none
  deriving DecidableEq, Repr

namespace Instruction

/-- The stand-in for a virtual instruction that was not recovered. -/
def placeholder (code offset : Nat) : Instruction :=
  { opcode := .nop, operand := .placeholder code, virtualOffset := some offset }

def isPlaceholder (instruction : Instruction) : Bool :=
  match instruction.operand with
  | .placeholder _ => true
  | _ => false

/-- The number that any form of `ldc.i4` pushes. -/
def i4Constant? (instruction : Instruction) : Option Int32 :=
  match instruction.opcode.implicitI4? with
  | some value => some value
  | none =>
    match instruction.opcode, instruction.operand with
    | .ldcI4S, .immediate (.int8 value) => some value.toInt32
    | .ldcI4, .immediate (.int32 value) => some value
    | _, _ => none

def method? (instruction : Instruction) : Option MethodRef :=
  match instruction.operand with
  | .method ref => some ref
  | _ => none

def field? (instruction : Instruction) : Option FieldRef :=
  match instruction.operand with
  | .field ref => some ref
  | _ => none

def type? (instruction : Instruction) : Option TypeSig :=
  match instruction.operand with
  | .type sig => some sig
  | _ => none

/-- The branch targets. -/
def targets (instruction : Instruction) : List Label :=
  match instruction.operand with
  | .target label => [label]
  | .switch labels => labels
  | _ => []

def render (instruction : Instruction) : String :=
  instruction.opcode.mnemonic ++
    match instruction.operand with
    | .none => ""
    | .immediate value => " " ++ value.render
    | .local index => " V_" ++ toString index
    | .argument index => " A_" ++ toString index
    | .target label => " " ++ label.render
    | .switch labels => " (" ++ String.intercalate ", " (labels.map Label.render) ++ ")"
    | .type sig => " " ++ sig.fullName
    | .field ref => " " ++ ref.render
    | .method ref => " " ++ ref.render
    | .string text => " " ++ Text.quote text
    | .token value => " " ++ value.render
    | .placeholder code => " // unrecovered virtual opcode 0x" ++ Text.hex 4 code

end Instruction

end CilRecovery
