import CilRecovery.Metadata.Host
import CilRecovery.Pattern.Signature

/-!
Matching signatures against bodies. A check may go into the bodies of methods that are called,
to a fixed depth, so matching ends on every call graph.
-/
namespace CilRecovery

/-- The members of the interpreter that checks refer to. -/
structure Anchors where
  push : MethodRef
  pop : MethodRef
  jump : MethodRef
  locals : FieldRef
  arguments : FieldRef
  deriving DecidableEq, Repr, Inhabited

/-- Equality of fields by declaring type and name. -/
def FieldRef.sameMember (a b : FieldRef) : Bool :=
  a.name == b.name && a.declaring == b.declaring

/-- The name of the type that declares a method, without generic arguments. -/
def MethodRef.declaringName (method : MethodRef) : String :=
  match method.declaring.typeRef? with
  | some ref => ref.fullName
  | none => method.declaring.fullName

namespace TypeCheck

def accepts (sig : TypeSig) : TypeCheck → Bool
  | exactly expected => sig == expected
  | withName fullName => sig.fullName == fullName
  | slotIndex => sig == .primitive .u2 || sig == .primitive .u1

end TypeCheck

namespace FieldCheck

def accepts (anchors : Anchors) (field : FieldRef) : FieldCheck → Bool
  | locals => field.sameMember anchors.locals
  | arguments => field.sameMember anchors.arguments
  | ofType sig => field.type == some sig
  | any => true

end FieldCheck

/-- A test whether a signature has a match in the body of a method. -/
abbrev CalleeTest := MethodRef → Signature → Bool

namespace Callee

def accepts (anchors : Anchors) (test : CalleeTest) (method : MethodRef) : Callee → Bool
  | push => method == anchors.push
  | pop => method == anchors.pop
  | jump => method == anchors.jump
  | member declaring name => method.name == name && method.declaringName == declaring
  | body signature => test method signature
  | any => true

end Callee

namespace Check

/-- Goes through instructions, each operand taking the next expectation of its sort. -/
def operandsHold (anchors : Anchors) (test : CalleeTest) (calls : List Callee)
    (types : List TypeCheck) (fields : List FieldCheck) (constants : List Int32) :
    List Instruction → Bool
  | [] => calls.isEmpty && types.isEmpty && fields.isEmpty && constants.isEmpty
  | instruction :: rest =>
    match instruction.operand with
    | .method method =>
      match calls with
      | callee :: calls =>
        callee.accepts anchors test method &&
          operandsHold anchors test calls types fields constants rest
      | [] => false
    | .type sig =>
      match types with
      | expected :: types =>
        expected.accepts sig && operandsHold anchors test calls types fields constants rest
      | [] => false
    | .field field =>
      match fields with
      | expected :: fields =>
        expected.accepts anchors field &&
          operandsHold anchors test calls types fields constants rest
      | [] => false
    | _ =>
      match instruction.i4Constant? with
      | some value =>
        match constants with
        | expected :: constants =>
          value == expected && operandsHold anchors test calls types fields constants rest
        | [] => false
      | none => operandsHold anchors test calls types fields constants rest

/-- Whether the instruction at a place has a method operand that passes. -/
def methodAt (window : List Instruction) (index : Nat) (passes : MethodRef → Bool) : Bool :=
  (window[index]?.bind Instruction.method?).any passes

/-- Whether the check of `signature` holds for a match at nesting depth `depth`. -/
def holds (anchors : Anchors) (depth : Nat) (test : CalleeTest) (signature : Signature)
    (window : List Instruction) : Check → Bool
  | always => true
  | constant index value => (window[index]?.bind Instruction.i4Constant?) == some value
  | call index callee => methodAt window index fun method => callee.accepts anchors test method
  | again index => methodAt window index fun method => test method signature
  | depthAtLeast limit =>
    decide (limit ≤ depth) || methodAt window 0 fun method => test method signature
  | operands calls types fields constants =>
    operandsHold anchors test calls types fields constants window

end Check

/-- Where a signature matches. -/
structure Match where
  start : Nat
  length : Nat
  deriving DecidableEq, Repr

namespace Signature

/-- The first run of `width` instructions that passes, counting places from `start`. -/
def firstWindow? (passes : List Instruction → Bool) (width : Nat) :
    (start : Nat) → List Instruction → Option Match
  | _, [] => none
  | start, instruction :: rest =>
    if passes ((instruction :: rest).take width) then some ⟨start, width⟩
    else firstWindow? passes width (start + 1) rest

/-- The first match whose operands pass `verify`. -/
def findWith? (signature : Signature) (verify : List Instruction → Bool)
    (body : List Instruction) : Option Match :=
  let passes (window : List Instruction) : Bool := signature.hasShape window && verify window
  match signature.mode with
  | .contiguous => if passes body then some ⟨0, body.length⟩ else none
  | .window =>
    if signature.symbols.isEmpty then none
    else firstWindow? passes signature.symbols.length 0 body

end Signature

/-- Where matching takes place. -/
structure MatchContext where
  host : Host
  anchors : Anchors

namespace MatchContext

/-- How deep checks may go into methods that are called. -/
def maxDepth : Nat := 8

/-- Whether a signature has a match in the body of a method, `remaining` levels being left. -/
def calleeMatches (context : MatchContext) : (remaining : Nat) → MethodRef → Signature → Bool
  | 0, _, _ => false
  | remaining + 1, method, signature =>
    match context.host.calleeBody? method with
    | none => false
    | some body =>
      let verify (window : List Instruction) : Bool :=
        signature.check.holds context.anchors (maxDepth - remaining)
          (context.calleeMatches remaining) signature window
      (signature.findWith? verify body).isSome

/-- The first match of a signature in a body. -/
def find? (context : MatchContext) (signature : Signature) (body : List Instruction) :
    Option Match :=
  signature.findWith?
    (fun window =>
      signature.check.holds context.anchors 0 (context.calleeMatches maxDepth) signature window)
    body

end MatchContext

/-- Whether a body holds a run of opcodes, which must not be empty. -/
def containsSequence (opcodes : List OpCode) : List Instruction → Bool
  | [] => false
  | instruction :: rest =>
    (!opcodes.isEmpty && opcodes.isPrefixOf ((instruction :: rest).map Instruction.opcode)) ||
      containsSequence opcodes rest

end CilRecovery
