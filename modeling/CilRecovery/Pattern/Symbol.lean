import CilRecovery.Cil.Instruction

/-!
Symbols: what may stand at one place of an instruction pattern.
-/
namespace CilRecovery

/-- A class of opcodes that encode one operation. -/
inductive OpClass where
  | loadArg
  | loadLocal
  | storeLocal
  | storeArg
  | loadConstI4
  | call
  | branchTrue
  | branchFalse
  | branch
  | conv
  deriving DecidableEq, Repr

namespace OpClass

def all : List OpClass :=
  [loadArg, loadLocal, storeLocal, storeArg, loadConstI4, call, branchTrue, branchFalse, branch,
    conv]

def name : OpClass → String
  | loadArg => "LoadArg"
  | loadLocal => "LoadLocal"
  | storeLocal => "StoreLocal"
  | storeArg => "StoreArg"
  | loadConstI4 => "LoadConstI4"
  | call => "Call"
  | branchTrue => "BranchTrue"
  | branchFalse => "BranchFalse"
  | branch => "Branch"
  | conv => "Conv"

def ofName? (text : String) : Option OpClass :=
  all.find? fun cls => cls.name == text

def contains : OpClass → OpCode → Bool
  | loadArg, op => op.isLoadArg
  | loadLocal, op => op.isLoadLocal
  | storeLocal, op => op.isStoreLocal
  | storeArg, op => op.isStoreArg
  | loadConstI4, op => op.isLoadConstI4
  | call, op => op.isCall
  | branchTrue, op => op.isBranchTrue
  | branchFalse, op => op.isBranchFalse
  | branch, op => op.isUnconditionalBranch
  | conv, op => op.isConversion

end OpClass

/-- What may stand at one place of a pattern. -/
inductive Symbol where
  /-- One opcode. -/
  | op (opcode : OpCode)
  /-- Any opcode of a class. -/
  | cls (opClass : OpClass)
  /-- Any instruction. -/
  | any
  deriving DecidableEq, Repr

namespace Symbol

def accepts (symbol : Symbol) (instruction : Instruction) : Bool :=
  match symbol with
  | op opcode => instruction.opcode == opcode
  | cls opClass => opClass.contains instruction.opcode
  | any => true

def render : Symbol → String
  | op opcode => opcode.mnemonic
  | cls opClass => "<" ++ opClass.name ++ ">"
  | any => "*"

/-- Reads a symbol as it is rendered. -/
def parse? (text : String) : Option Symbol :=
  if text == "*" then some any
  else
    match text.toList with
    | '<' :: rest => (OpClass.ofName? (String.ofList rest.dropLast)).map cls
    | _ => (OpCode.ofMnemonic? text).map op

end Symbol

end CilRecovery
