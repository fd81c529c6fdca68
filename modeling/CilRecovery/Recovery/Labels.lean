import CilRecovery.Recovery.DecodedBody
import CilRecovery.Recovery.Header
import CilRecovery.Resolver.Basic

/-!
From virtual offsets to labels, in branches and in exception handlers.
-/
namespace CilRecovery

namespace DecodedBody

/-- The label of a branch target. In a body that stops early, a target with no instruction goes
to the placeholder. -/
def targetLabel (body : DecodedBody) (index target : Nat) : Except Error Label :=
  match (body.index? target).filter (· < body.instructions.length) with
  | some label => .ok label
  | none =>
    match body.placeholder? with
    | some label => .ok label
    | none =>
      .error (.malformed ("Branch at " ++ toString index ++ " targets virtual offset 0x" ++
        Text.hex 0 target ++ " outside any instruction"))

/-- The operand of a branch once its targets are labels. -/
def branchOperand (body : DecodedBody) (branch : RawBranch) : Except Error Operand := do
  let labels ← branch.targets.mapM (body.targetLabel branch.index)
  if branch.isSwitch then return .switch labels
  match labels with
  | label :: _ => return .target label
  | [] => throw (.malformed ("Branch at " ++ toString branch.index ++ " has no target"))

def setOperand (instructions : List Instruction) (index : Nat) (operand : Operand) :
    Except Error (List Instruction) :=
  if index < instructions.length then
    .ok (instructions.modify index fun instruction => { instruction with operand })
  else .error (.malformed ("Branch index " ++ toString index ++ " out of range"))

/-- Gives every branch its labels; all of them are found before any is set. -/
def fixBranches (body : DecodedBody) : Except Error DecodedBody := do
  let operands ← body.branches.mapM body.branchOperand
  let set (instructions : List Instruction) (change : RawBranch × Operand) :=
    setOperand instructions change.1.index change.2
  let instructions ← (body.branches.zip operands).foldlM set body.instructions
  return { body with instructions }

/-- The label of a boundary of an exception handler; the end of the code has one too. -/
def boundary (body : DecodedBody) (offset : Nat) : Except Error Label :=
  if offset = body.length then .ok body.instructions.length
  else
    match body.index? offset with
    | some label => .ok label
    | none =>
      .error (.malformed ("Handler boundary 0x" ++ Text.hex 0 offset ++
        " is not an instruction start"))

def labelRange (body : DecodedBody) (range : OffsetRange) : Except Error LabelRange := do
  let start ← body.boundary range.start.toNat
  let finish ← body.boundary range.finish
  return ⟨start, finish⟩

end DecodedBody

namespace HandlerRecord

/-- The type that a typed clause catches. -/
def caughtType (resolver : Resolver) (record : HandlerRecord) (kind : HandlerKind) :
    ResolveM (Option TypeSig) :=
  match kind with
  | .typed => do
    match ← resolver.resolveType record.catchType with
    | some sig => return some sig
    | none =>
      throw (.resolution ("Caught type at 0x" ++ Text.hex 0 record.catchType.toUInt32.toNat ++
        " did not resolve"))
  | _ => return none

/-- The first instruction of the filter of a filter clause. -/
def filterLabel (body : DecodedBody) (record : HandlerRecord) (kind : HandlerKind) :
    Except Error (Option Label) :=
  match kind with
  | .filter => return some (← body.boundary record.filter.toNat)
  | _ => return none

def toHandler (resolver : Resolver) (body : DecodedBody) (record : HandlerRecord) :
    ResolveM ExceptionHandler := do
  let kind ← Resolver.lift record.kind
  let catchType ← record.caughtType resolver kind
  let filter ← Resolver.lift (record.filterLabel body kind)
  let guarded ← Resolver.lift (body.labelRange record.guarded)
  let handler ← Resolver.lift (body.labelRange record.handler)
  return { kind, guarded, handler, filter, catchType }

end HandlerRecord

/-- The exception handlers of a body. -/
def DecodedBody.fixHandlers (resolver : Resolver) (body : DecodedBody)
    (records : List HandlerRecord) : ResolveM (List ExceptionHandler) :=
  records.mapM (HandlerRecord.toHandler resolver body)

end CilRecovery
