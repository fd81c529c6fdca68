import CilRecovery.Pattern.Match
import Mathlib.Data.List.Forall2

/-!
Operations with more than one encoding. Two instructions that perform the same one are
interchangeable: patterns that name classes and not single opcodes cannot tell them apart.
-/
namespace CilRecovery

/-- An operation of which there is more than one encoding. -/
inductive Operation where
  | constant (value : Int32)
  | loadLocal (index : Nat)
  | storeLocal (index : Nat)
  | loadArg (index : Nat)
  | storeArg (index : Nat)
  | branch (target : Label)
  | branchTrue (target : Label)
  | branchFalse (target : Label)
  deriving DecidableEq, Repr

namespace Operation

/-- The class of its encodings. -/
def opClass : Operation → OpClass
  | constant _ => .loadConstI4
  | loadLocal _ => .loadLocal
  | storeLocal _ => .storeLocal
  | loadArg _ => .loadArg
  | storeArg _ => .storeArg
  | branch _ => .branch
  | branchTrue _ => .branchTrue
  | branchFalse _ => .branchFalse

def constant? : Operation → Option Int32
  | constant value => some value
  | _ => none

end Operation

/-- The operation that an opcode performs by itself. -/
def OpCode.operation? : OpCode → Option Operation
  | .ldcI4M1 => some (.constant (-1))
  | .ldcI40 => some (.constant 0)
  | .ldcI41 => some (.constant 1)
  | .ldcI42 => some (.constant 2)
  | .ldcI43 => some (.constant 3)
  | .ldcI44 => some (.constant 4)
  | .ldcI45 => some (.constant 5)
  | .ldcI46 => some (.constant 6)
  | .ldcI47 => some (.constant 7)
  | .ldcI48 => some (.constant 8)
  | .ldloc0 => some (.loadLocal 0)
  | .ldloc1 => some (.loadLocal 1)
  | .ldloc2 => some (.loadLocal 2)
  | .ldloc3 => some (.loadLocal 3)
  | .stloc0 => some (.storeLocal 0)
  | .stloc1 => some (.storeLocal 1)
  | .stloc2 => some (.storeLocal 2)
  | .stloc3 => some (.storeLocal 3)
  | .ldarg0 => some (.loadArg 0)
  | .ldarg1 => some (.loadArg 1)
  | .ldarg2 => some (.loadArg 2)
  | .ldarg3 => some (.loadArg 3)
  | _ => none

theorem OpCode.mem_all (opcode : OpCode) : opcode ∈ all := by
  have indexed : all[opcode.ctorIdx]? = some opcode := by cases opcode <;> rfl
  exact List.mem_of_getElem? indexed

namespace Instruction

/-- The operation that an instruction performs, if there is more than one encoding of it. -/
def operation? (instruction : Instruction) : Option Operation :=
  match instruction.operand with
  | .none => instruction.opcode.operation?
  | .immediate (.int8 value) =>
    if instruction.opcode = .ldcI4S then some (.constant value.toInt32) else none
  | .immediate (.int32 value) =>
    if instruction.opcode = .ldcI4 then some (.constant value) else none
  | .local index =>
    match instruction.opcode with
    | .ldlocS | .ldloc => some (.loadLocal index)
    | .stlocS | .stloc => some (.storeLocal index)
    | _ => none
  | .argument index =>
    match instruction.opcode with
    | .ldargS | .ldarg => some (.loadArg index)
    | .stargS | .starg => some (.storeArg index)
    | _ => none
  | .target label =>
    match instruction.opcode with
    | .brS | .br => some (.branch label)
    | .brtrueS | .brtrue => some (.branchTrue label)
    | .brfalseS | .brfalse => some (.branchFalse label)
    | _ => none
  | _ => none

/-- Two encodings of one operation, or the same instruction. -/
def Interchanges (one other : Instruction) : Prop :=
  one = other ∨ one.operation?.isSome = true ∧ one.operation? = other.operation?

instance (one other : Instruction) : Decidable (one.Interchanges other) :=
  inferInstanceAs (Decidable (_ ∨ _))

/-- What an instruction shows that encodes an operation. -/
structure Encodes (instruction : Instruction) (operation : Operation) : Prop where
  opClass : operation.opClass.contains instruction.opcode = true
  constant : instruction.i4Constant? = operation.constant?
  method : instruction.method? = none
  field : instruction.field? = none
  type : instruction.type? = none

theorem encodes_of_opcode {opcode : OpCode} {operation : Operation} (offset : Option Nat)
    (is : opcode.operation? = some operation) : Encodes ⟨opcode, .none, offset⟩ operation := by
  rw [OpCode.operation?.eq_def] at is
  split at is <;> cases is <;> exact ⟨rfl, rfl, rfl, rfl, rfl⟩

theorem encodes_of_operation? {instruction : Instruction} {operation : Operation}
    (is : instruction.operation? = some operation) : instruction.Encodes operation := by
  obtain ⟨opcode, operand, offset⟩ := instruction
  simp only [operation?] at is
  split at is
  · exact encodes_of_opcode offset is
  · split at is
    · rename_i form
      cases form
      cases is
      exact ⟨rfl, rfl, rfl, rfl, rfl⟩
    · cases is
  · split at is
    · rename_i form
      cases form
      cases is
      exact ⟨rfl, rfl, rfl, rfl, rfl⟩
    · cases is
  · split at is <;> cases is <;> exact ⟨rfl, rfl, rfl, rfl, rfl⟩
  · split at is <;> cases is <;> exact ⟨rfl, rfl, rfl, rfl, rfl⟩
  · split at is <;> cases is <;> exact ⟨rfl, rfl, rfl, rfl, rfl⟩
  · cases is

/-- Interchangeable instructions are the same, or they show the same. -/
theorem Interchanges.cases {one other : Instruction} (same : one.Interchanges other) :
    one = other ∨ ∃ operation, one.Encodes operation ∧ other.Encodes operation := by
  refine same.imp_right ?_
  rintro ⟨has, equal⟩
  obtain ⟨operation, is⟩ := Option.isSome_iff_exists.mp has
  exact ⟨operation, encodes_of_operation? is, encodes_of_operation? (equal ▸ is)⟩

theorem Interchanges.method? {one other : Instruction} (same : one.Interchanges other) :
    one.method? = other.method? := by
  rcases same.cases with rfl | ⟨operation, now, then_⟩
  · rfl
  · rw [now.method, then_.method]

theorem Interchanges.i4Constant? {one other : Instruction} (same : one.Interchanges other) :
    one.i4Constant? = other.i4Constant? := by
  rcases same.cases with rfl | ⟨operation, now, then_⟩
  · rfl
  · rw [now.constant, then_.constant]

end Instruction

/-- Code with the same operations, each in some encoding. -/
abbrev Interchanged (body body' : List Instruction) : Prop :=
  List.Forall₂ Instruction.Interchanges body body'

/-- What interchangeable instructions have in common, those at one place of such code have. -/
theorem Interchanged.bind_getElem? {body body' : List Instruction} (same : Interchanged body body')
    {view : Instruction → Option α}
    (agree : ∀ {one other : Instruction}, one.Interchanges other → view one = view other)
    (index : Nat) : body[index]?.bind view = body'[index]?.bind view := by
  induction same generalizing index with
  | nil => rfl
  | cons first rest ih =>
    cases index with
    | zero => exact agree first
    | succ index =>
      rw [List.getElem?_cons_succ, List.getElem?_cons_succ]
      exact ih index

namespace OpClass

/-- The classes whose members may encode one operation. -/
def interchanging : List OpClass :=
  [loadArg, loadLocal, storeLocal, storeArg, loadConstI4, branchTrue, branchFalse, branch]

theorem mem_interchanging (operation : Operation) : operation.opClass ∈ interchanging := by
  cases operation <;> simp [Operation.opClass, interchanging]

theorem mem_all (opClass : OpClass) : opClass ∈ all := by
  cases opClass <;> decide

/-- Such a class has no member in common with any other class. -/
theorem contains_eq_beq {opcode : OpCode} {operation : Operation}
    (is : operation.opClass.contains opcode = true) (opClass : OpClass) :
    opClass.contains opcode = (opClass == operation.opClass) := by
  have apart : ∀ opcode ∈ OpCode.all, ∀ one ∈ interchanging, one.contains opcode = true →
      ∀ other ∈ all, other.contains opcode = (other == one) := by decide +kernel
  exact apart opcode (OpCode.mem_all opcode) _ (mem_interchanging operation) is opClass
    (mem_all opClass)

end OpClass

namespace Symbol

/-- Whether a symbol does not tell encodings of one operation apart. -/
def isLoose : Symbol → Bool
  | op opcode => !OpClass.interchanging.any fun opClass => opClass.contains opcode
  | _ => true

theorem accepts_of_interchanges {symbol : Symbol} {one other : Instruction}
    (loose : symbol.isLoose = true) (same : one.Interchanges other) :
    symbol.accepts one = symbol.accepts other := by
  rcases same.cases with rfl | ⟨operation, now, then_⟩
  · rfl
  · cases symbol with
    | any => rfl
    | cls opClass =>
      rw [accepts, accepts, OpClass.contains_eq_beq now.opClass,
        OpClass.contains_eq_beq then_.opClass]
    | op opcode =>
      -- An opcode that a loose symbol names is not an encoding of any such operation.
      have other_ {instruction : Instruction} (is : instruction.Encodes operation) :
          (op opcode).accepts instruction = false := by
        rw [accepts, beq_eq_false_iff_ne]
        rintro rfl
        rw [isLoose, Bool.not_eq_true', List.any_eq_false] at loose
        exact loose _ (OpClass.mem_interchanging operation) is.opClass
      rw [other_ now, other_ then_]

end Symbol

end CilRecovery
