import CilRecovery.Virtual.Opcode
import CilRecovery.Virtual.Template

/-!
The table of handler templates, in the order in which they are tried. The template of a guarded
range comes first because its handler holds other code too, and a negated comparison comes before
the plain one that it contains.
-/
namespace CilRecovery

/-- One rule: a handler that the signature matches stands for `kind`. -/
structure HandlerRule where
  kind : OpcodeKind
  signature : Signature
  /-- The operand types that the rule is for; none means all. -/
  operands : List InlineOperand := []

namespace HandlerTable

open Template

/-- The rule for an opcode, named after it. -/
def cil (opcode : OpCode) (template : Template) : HandlerRule :=
  { kind := .cil opcode, signature := template.toSignature opcode.mnemonic }

def fieldInfo : String := "System.Reflection.FieldInfo"

def methodBase : String := "System.Reflection.MethodBase"

def systemType : String := "System.Type"

def dispatchInfo : String := "System.Runtime.ExceptionServices.ExceptionDispatchInfo"

/-- The handlers without an opcode of their own. -/
def special : List HandlerRule :=
  [{ kind := .special .chainBoundary
     signature := .mk "chain-boundary" [.op .newobj] .window
      (.call 0 (.member "System.Security.Cryptography.Rfc2898DeriveBytes" ".ctor"))
     operands := [.inlineI] },
    { kind := .special .noEffect
      signature := .mk "no-effect" [ret] .contiguous .always },
    { kind := .special .packedCall
      signature := (operandCall .i4 (.body masksCallPosition)).toSignature "eazcall"
      operands := [.inlineI, .inlineMethod] }]

/-- Opcodes that compare and branch, with what their helpers hold. -/
def compareBranches : List (OpCode × List OpCode) :=
  [(.bneUn, [.ceq, .ldcI40, .ceq]), (.bge, [.clt, .ldcI40, .ceq]),
    (.bgeUn, [.cltUn, .ldcI40, .ceq]), (.ble, [.cgt, .ldcI40, .ceq]),
    (.bleUn, [.cgtUn, .ldcI40, .ceq]), (.beq, [.ceq]), (.bgt, [.cgt]), (.bgtUn, [.cgtUn]),
    (.blt, [.clt]), (.bltUn, [.cltUn])]

def controlFlow : List HandlerRule :=
  [cil .br (operandCall .u4 .jump), cil .leave (operandCall .u4 (.body callsJump)),
    cil .brtrue (truthBranch true), cil .brfalse (truthBranch false)] ++
  compareBranches.map (fun pair => cil pair.1 (compareBranch pair.2)) ++
  [cil .switch
      { symbols := [arg, arg, call, .op .unboxAny, arg, .op .castclass, call, ret]
        calls := [.pop, .any]
        types := [.exactly (.primitive .u4), .exactly (.vector (.primitive .u4))] },
    cil .ret
      { symbols := [arg, const, .op .stfld, ret]
        fields := [.ofType (.primitive .boolean)]
        constants := [1] },
    cil .endfinally
      { symbols := [arg, arg, .op .ldfld, call, call, ret]
        calls := [.member "System.Collections.Generic.Stack`1" "Pop", .jump]
        fields := [.any] },
    cil .throw
      { symbols := [arg, call, .op .castclass, .op .throw]
        calls := [.pop]
        types := [.withName "System.Exception"] },
    cil .rethrow
      { symbols := [arg, .op .ldfld, call, call, ret]
        calls := [.member dispatchInfo "Capture", .member dispatchInfo "Throw"]
        fields := [.any] }]

/-- Opcodes that push a constant, with its type. -/
def constants : List (OpCode × Primitive) :=
  [(.ldcI4, .i4), (.ldcI4S, .i1), (.ldcI8, .i8), (.ldcR4, .r4), (.ldcR8, .r8)]

def stack : List HandlerRule :=
  constants.map (fun pair => cil pair.1 (pushConstant (.primitive pair.2))) ++
  [cil .ldnull { symbols := [arg, .op .ldnull, call, ret], calls := [.push] },
    cil .ldstr (pushCast "System.String"),
    cil .ldtoken (pushCast "System.Reflection.MemberInfo"),
    cil .dup
      { symbols := [arg, call, store, arg, load, call, arg, load, call, ret]
        calls := [.pop, .push, .push] },
    cil .pop { symbols := [arg, call, .op .pop, ret], calls := [.pop] }]

def slots : List HandlerRule :=
  [cil .ldloc (loadSlot .locals), cil .ldarg (loadSlot .arguments), cil .stloc (storeSlot .locals),
    cil .starg (storeSlot .arguments), cil .ldloca (slotAddress .locals),
    cil .ldarga (slotAddress .arguments)]

def fields : List HandlerRule :=
  [cil .ldfld
      { symbols := [arg, arg, .op .castclass, arg, call, call, call, ret]
        calls := [.pop, .member fieldInfo "GetValue", .push]
        types := [.withName fieldInfo] },
    cil .ldsfld
      { symbols := [arg, arg, .op .castclass, .op .ldnull, call, call, ret]
        calls := [.member fieldInfo "GetValue", .push]
        types := [.withName fieldInfo] },
    cil .stfld
      { symbols := [arg, call, store, arg, .op .castclass, arg, call, load, call, ret]
        calls := [.pop, .pop, .member fieldInfo "SetValue"]
        types := [.withName fieldInfo] },
    cil .stsfld
      { symbols := [arg, .op .castclass, .op .ldnull, arg, call, call, ret]
        calls := [.pop, .member fieldInfo "SetValue"]
        types := [.withName fieldInfo] }]

def methods : List HandlerRule :=
  [cil .call (invoke 0), cil .callvirt (invoke 1),
    cil .newobj
      { symbols := [arg, arg, .op .castclass, call, ret]
        calls := [.any]
        types := [.withName "System.Reflection.ConstructorInfo"] },
    cil .ldftn
      { symbols := [arg, arg, .op .castclass, call, .op .box, call, ret]
        calls := [.member methodBase "get_MethodHandle", .push]
        types := [.withName methodBase, .withName "System.RuntimeMethodHandle"] }]

def types : List HandlerRule :=
  [cil .newarr
      { symbols := [arg, arg, .op .castclass, arg, call, .op .unboxAny, call, call, ret]
        calls := [.pop, .member "System.Array" "CreateInstance", .push]
        types := [.withName systemType, .exactly .i4] },
    cil .castclass
      { symbols := [arg, call, store, arg, .op .castclass, load, call, .cls .branchTrue,
          .op .newobj, .op .throw, arg, load, call, ret]
        calls := [.pop, .member systemType "IsInstanceOfType",
          .member "System.InvalidCastException" ".ctor", .push]
        types := [.withName systemType] },
    cil .isinst
      { symbols := [arg, call, store, arg, .op .castclass, load, call, .cls .branchTrue,
          .op .ldnull, store, arg, load, call, ret]
        calls := [.pop, .member systemType "IsInstanceOfType", .push]
        types := [.withName systemType] },
    cil .box
      { symbols := [arg, arg, .op .castclass, arg, call, call, call, ret]
        calls := [.pop, .member "System.Convert" "ChangeType", .push]
        types := [.withName systemType] },
    cil .unboxAny
      { symbols := [arg, arg, .op .castclass, arg, call, call, call, call, ret]
        calls := [.pop, .member "System.Convert" "ChangeType",
          .member "System.Runtime.CompilerServices.RuntimeHelpers" "GetObjectValue", .push]
        types := [.withName systemType] },
    cil .initobj
      { symbols := [arg, call, arg, .op .castclass, call, call, ret]
        calls := [.pop, .member "System.Activator" "CreateInstance", .any]
        types := [.withName systemType] },
    cil .sizeof
      { symbols := [arg, arg, .op .castclass, call, .op .box, call, ret]
        calls := [.member "System.Runtime.InteropServices.Marshal" "SizeOf", .push]
        types := [.withName systemType, .exactly .i4] }]

/-- Opcodes that take two values to one. -/
def binary : List OpCode :=
  [.add, .addOvf, .addOvfUn, .sub, .subOvf, .subOvfUn, .mul, .mulOvf, .mulOvfUn, .div, .divUn, .rem,
    .remUn, .and, .or, .xor, .shl, .shr, .shrUn, .ceq, .cgt, .cgtUn, .clt, .cltUn, .ldelemI1,
    .ldelemU1, .ldelemI2, .ldelemU2, .ldelemI4, .ldelemU4, .ldelemI8, .ldelemI, .ldelemR4,
    .ldelemR8, .ldelemRef]

/-- Opcodes that take one value to one, conversions apart. -/
def unary : List OpCode :=
  [.neg, .not, .ckfinite, .ldlen, .localloc, .ldindI1, .ldindU1, .ldindI2, .ldindU2, .ldindI4,
    .ldindU4, .ldindI8, .ldindI, .ldindR4, .ldindR8, .ldindRef]

/-- Opcodes that take two values to none. -/
def storeTwo : List OpCode :=
  [.stindRef, .stindI1, .stindI2, .stindI4, .stindI8, .stindR4, .stindR8, .stindI]

/-- Opcodes that take three values to none. -/
def storeThree : List OpCode :=
  [.stelemI, .stelemI1, .stelemI2, .stelemI4, .stelemI8, .stelemR4, .stelemR8, .stelemRef, .cpblk,
    .initblk]

def values : List HandlerRule :=
  let conversions := OpCode.all.filter OpCode.isConversion
  binary.map (fun op => cil op (stackHelper 2 true [op])) ++
  (unary ++ conversions).map (fun op => cil op (stackHelper 1 true [op])) ++
  storeTwo.map (fun op => cil op (stackHelper 2 false [op])) ++
  storeThree.map (fun op => cil op (stackHelper 3 false [op]))

/-- All rules, in the order in which they are tried. -/
def rules : List HandlerRule :=
  special ++ controlFlow ++ stack ++ slots ++ fields ++ methods ++ types ++ values

end HandlerTable

end CilRecovery
