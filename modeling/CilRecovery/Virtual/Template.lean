import CilRecovery.Pattern.Signature

/-!
Templates of handler methods: a shape of a whole body and, in order of appearance, the callees,
types, fields and constants that it must have.
-/
namespace CilRecovery

/-- A handler template. -/
structure Template where
  symbols : List Symbol
  calls : List Callee := []
  types : List TypeCheck := []
  fields : List FieldCheck := []
  constants : List Int32 := []

namespace Template

def toSignature (template : Template) (name : String) : Signature :=
  .mk name template.symbols .contiguous
    (.operands template.calls template.types template.fields template.constants)

/-- Loads an argument. -/
def arg : Symbol := .cls .loadArg

/-- Loads a local. -/
def load : Symbol := .cls .loadLocal

/-- Stores a local. -/
def store : Symbol := .cls .storeLocal

/-- Loads a constant. -/
def const : Symbol := .cls .loadConstI4

/-- Calls a method. -/
def call : Symbol := .cls .call

/-- Returns. -/
def ret : Symbol := .op .ret

/-- A body that holds a run of opcodes. -/
def helperContaining (opcodes : List OpCode) : Signature :=
  .mk (String.intercalate " " (opcodes.map OpCode.mnemonic)) (opcodes.map Symbol.op) .window .always

/-- A body that sets the instruction pointer. -/
def callsJump : Signature :=
  .mk "calls-jump" [call] .window (.call 0 .jump)

/-- A body that takes the position out of a packed call operand. -/
def masksCallPosition : Signature :=
  .mk "eazcall-mask" [const, .op .and] .window (.constant 0 0x3FFFFFFF)

/-- Pops values, passes them to a helper that holds a run of opcodes, and pushes the result or
not. -/
def stackHelper (pops : Nat) (push : Bool) (opcodes : List OpCode) : Template where
  symbols :=
    (List.replicate pops [arg, call, store]).flatten ++ (if push then [arg] else []) ++
      List.replicate pops load ++ [call] ++ (if push then [call] else []) ++ [ret]
  calls :=
    List.replicate pops .pop ++ [.body (helperContaining opcodes)] ++ (if push then [.push] else [])

/-- Pops two values and jumps when a helper that holds a run of opcodes says so. -/
def compareBranch (opcodes : List OpCode) : Template where
  symbols :=
    [arg, call, store, arg, call, store, load, load, call, .cls .branchFalse, arg, arg,
      .op .unboxAny, call, ret]
  calls := [.pop, .pop, .body (helperContaining opcodes), .jump]
  types := [.exactly (.primitive .u4)]

/-- Pops a value and jumps on its truth. -/
def truthBranch (jumpWhenTrue : Bool) : Template where
  symbols :=
    [arg, call, call, .cls (if jumpWhenTrue then .branchFalse else .branchTrue), arg, arg,
      .op .unboxAny, call, ret]
  calls := [.pop, .any, .jump]
  types := [.exactly (.primitive .u4)]

/-- Passes the operand to one call. -/
def operandCall (operand : Primitive) (callee : Callee) : Template where
  symbols := [arg, arg, .op .unboxAny, call, ret]
  calls := [callee]
  types := [.exactly (.primitive operand)]

/-- Pushes the operand. -/
def pushConstant (sig : TypeSig) : Template where
  symbols := [arg, arg, .op .unboxAny, .op .box, call, ret]
  calls := [.push]
  types := [.exactly sig, .exactly sig]

/-- Pushes the operand after a cast. -/
def pushCast (typeName : String) : Template where
  symbols := [arg, arg, .op .castclass, call, ret]
  calls := [.push]
  types := [.withName typeName]

/-- Pushes a slot of an array of slots. -/
def loadSlot (slots : FieldCheck) : Template where
  symbols := [arg, arg, .op .ldfld, arg, .op .unboxAny, .op .ldelemRef, call, ret]
  calls := [.push]
  types := [.slotIndex]
  fields := [slots]

/-- Pops into a slot of an array of slots. -/
def storeSlot (slots : FieldCheck) : Template where
  symbols := [arg, .op .ldfld, arg, .op .unboxAny, arg, call, .op .stelemRef, ret]
  calls := [.pop]
  types := [.slotIndex]
  fields := [slots]

/-- Pushes a reference to a slot of an array of slots. -/
def slotAddress (slots : FieldCheck) : Template where
  symbols := [arg, arg, .op .ldfld, arg, .op .unboxAny, .op .newobj, call, ret]
  calls := [.any, .push]
  types := [.slotIndex]
  fields := [slots]

/-- Calls the method that the operand names, `flag` telling a virtual call. -/
def invoke (flag : Int32) : Template where
  symbols := [arg, arg, .op .castclass, const, call, ret]
  calls := [.any]
  types := [.withName "System.Reflection.MethodBase"]
  constants := [flag]

end Template

end CilRecovery
