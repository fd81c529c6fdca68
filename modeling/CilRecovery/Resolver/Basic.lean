import CilRecovery.Metadata.TypeName
import CilRecovery.Resolver.Query
import CilRecovery.Resolver.Record

/-!
Resolving operand positions to types, members and texts. Each result is kept by position, absent
ones too; errors are not. Positions that refer to each other are followed to a fixed depth.
-/
namespace CilRecovery

/-- What records are read from and how. -/
structure Resolver where
  stream : Stream.Layered
  rule : Cipher.CounterRule := .position
  profiles : Profiles := {}
  layout : OperandLayout := .tokenFirst
  /-- How deep positions may refer to each other. -/
  maxDepth : Nat := 32

/-- The module at hand and the results so far. -/
structure Session where
  host : Host
  memo : Table Nat (Option Resolved) := {}
  deriving DecidableEq

/-- An operation that resolves. What was found before an error stays. -/
abbrev ResolveM := ExceptT Error (StateM Session)

/-- What a record asks for once the positions in it are resolved. -/
inductive Demand where
  | resolved (found : Resolved)
  | token (token : Token)
  | type (name : TypeName) (args : List TypeSig)
  | field (declaring : TypeSig) (name : String)
  | method (query : MethodQuery)

/-- How the positions inside a record are resolved. -/
abbrev Lookup := Int32 → ResolveM (Option Resolved)

namespace Resolver

/-- Reads the record at a position. -/
def readRecord (resolver : Resolver) (position : Nat) : Except Error OperandRecord :=
  let operation : ReadM OperandRecord := do
    Reader.seek position
    OperandRecord.read resolver.layout
  Reader.result operation (Reader.ofStream resolver.stream resolver.rule resolver.profiles)

/-- Passes a result on to the resolving operation. -/
def lift : Except Error α → ResolveM α
  | .ok value => pure value
  | .error e => throw e

def typeAt (lookup : Lookup) (position : Int32) : ResolveM (Option TypeSig) := do
  match ← lookup position with
  | some (.type sig) => return some sig
  | _ => return none

def methodAt (lookup : Lookup) (position : Int32) : ResolveM (Option MethodRef) := do
  match ← lookup position with
  | some (.method method) => return some method
  | _ => return none

/-- The types at some positions, absent as soon as one is. -/
def typesAt (lookup : Lookup) : List Int32 → ResolveM (Option (List TypeSig))
  | [] => return some []
  | position :: rest => do
    match ← typeAt lookup position with
    | none => return none
    | some sig => return (← typesAt lookup rest).map (sig :: ·)

/-- The signature of a type name. Arguments in the name count where none are given; they may nest
to the depth `left`. -/
def namedType (resolver : Resolver) (host : Host) :
    (left : Nat) → TypeName → List TypeSig → Except Error TypeSig
  | 0, _, _ => .error (.recursionLimit resolver.maxDepth)
  | left + 1, name, given => do
    let args ←
      if given.isEmpty then name.args.mapM fun arg => namedType resolver host left arg []
      else pure given
    let ref := name.typeRef
    let sig :=
      match host.findType? ref with
      | some definition => TypeSig.ofRef definition.ref definition.isValue
      | none => TypeSig.ofRef ref false
    return name.applyModifiers (if args.isEmpty then sig else .inst sig args)

/-- The type that a record describes; its name is read before its arguments are resolved. -/
def typeDemand (lookup : Lookup) (record : TypeRecord) : ResolveM (Option Demand) := do
  match record.param with
  | some param =>
    let sig := if param.onMethod then .methodParam param.index else .typeParam param.index
    return some (.resolved (.type sig))
  | none =>
    let name ← lift (TypeName.parse record.name.toList)
    return (← typesAt lookup record.args).map (.type name)

def fieldDemand (lookup : Lookup) (record : FieldRecord) : ResolveM (Option Demand) := do
  return (← typeAt lookup record.declaring).map fun declaring => .field declaring record.name

def methodDemand (lookup : Lookup) (record : MethodRecord) : ResolveM (Option Demand) := do
  match ← typeAt lookup record.declaring with
  | none => return none
  | some declaring =>
    match ← typeAt lookup record.ret with
    | none => return none
    | some ret =>
      match ← typesAt lookup record.params with
      | none => return none
      | some params =>
        return (← typesAt lookup record.args).map fun args =>
          .method ⟨declaring, record.name, record.isStatic, ret, params, args⟩

/-- The method that a packed call means, instantiated anew if the call has generic arguments of
its own, and whether the call is virtual. -/
def packedCall (lookup : Lookup) (record : CallRecord) : ResolveM (Option (MethodRef × Bool)) := do
  match ← methodAt lookup record.method with
  | none => return none
  | some method =>
    if record.args.isEmpty then return some (method, record.isVirtual)
    match ← typesAt lookup record.args with
    | none => return none
    | some args =>
      if args = method.genericArgs then return some (method, record.isVirtual)
      let sig := method.sig.generalize args method.declaring.genericArgs
      return some ({ method with sig, genericArgs := args }, record.isVirtual)

/-- What a record asks for, absent where a position in it is. -/
def demand (lookup : Lookup) : OperandRecord → ResolveM (Option Demand)
  | .token token => return some (.token token)
  | .userString text => return some (.resolved (.string text))
  | .type record => typeDemand lookup record
  | .field record => fieldDemand lookup record
  | .method record => methodDemand lookup record
  | .packedCall record => return (← packedCall lookup record).map fun found => .resolved (.method found.1)

/-- Finds what is asked for in a module, and the module with what is imported for it. -/
def find (resolver : Resolver) (left : Nat) (host : Host) :
    Demand → Except Error (Option Resolved × Host)
  | .resolved found => .ok (some found, host)
  | .token token => .ok (host.lookupToken? token, host)
  | .type name args => do
    let sig ← namedType resolver host left name args
    return (some (.type sig), host)
  | .field declaring name =>
    let (field, host) := host.resolveField declaring name
    .ok (field.map .field, host)
  | .method query =>
    let (method, host) := query.resolve host
    .ok (some (.method method), host)

/-- Finds what is asked for in the module at hand. -/
def meet (resolver : Resolver) (left : Nat) : Option Demand → ResolveM (Option Resolved)
  | none => return none
  | some demand => do
    let session ← get
    let (found, host) ← lift (find resolver left session.host demand)
    set { session with host }
    return found

/-- What the token hint of a record stands for, if that is of the record's kind. -/
def hinted? (host : Host) (record : OperandRecord) : Option Resolved :=
  match record, record.hint?.bind host.lookupToken? with
  | .type _, some (.type sig) => some (.type sig)
  | .field _, some (.field field) => some (.field field)
  | .method _, some (.method method) => some (.method method)
  | _, _ => none

/-- What a record stands for. -/
def resolveRecord (resolver : Resolver) (left : Nat) (lookup : Lookup) (record : OperandRecord) :
    ResolveM (Option Resolved) := do
  match hinted? (← get).host record with
  | some resolved => return some resolved
  | none => meet resolver left (← demand lookup record)

/-- Resolves a position, `left` levels of references being left. A negative position is absent. -/
def resolveWithin (resolver : Resolver) : (left : Nat) → Lookup
  | 0, _ => throw (.recursionLimit resolver.maxDepth)
  | left + 1, position => do
    if position < 0 then return none
    let key := position.toInt.toNat
    match (← get).memo.get? key with
    | some known => return known
    | none =>
      let record ← lift (resolver.readRecord key)
      let resolved ← resolver.resolveRecord (left + 1) (resolver.resolveWithin left) record
      modify fun session => { session with memo := session.memo.insert key resolved }
      return resolved

/-- Resolves a position in the stream; the upper half of the positions is absent. -/
def resolve (resolver : Resolver) (position : UInt32) : ResolveM (Option Resolved) :=
  resolver.resolveWithin (resolver.maxDepth + 1) position.toInt32

def resolveType (resolver : Resolver) (position : Int32) : ResolveM (Option TypeSig) :=
  typeAt (resolver.resolveWithin (resolver.maxDepth + 1)) position

def resolveField (resolver : Resolver) (position : UInt32) : ResolveM (Option FieldRef) := do
  match ← resolver.resolve position with
  | some (.field field) => return some field
  | _ => return none

def resolveMethod (resolver : Resolver) (position : UInt32) : ResolveM (Option MethodRef) :=
  methodAt (resolver.resolveWithin (resolver.maxDepth + 1)) position.toInt32

/-- The target of a call at a position, which holds a packed call or a method, and whether it is
virtual. -/
def resolveCall (resolver : Resolver) (position : UInt32) :
    ResolveM (Option (MethodRef × Bool)) := do
  match ← lift (resolver.readRecord position.toNat) with
  | .packedCall record => packedCall (resolver.resolveWithin resolver.maxDepth) record
  | .method record =>
    return (← resolver.resolveMethod position).map fun method => (method, record.isVirtual)
  | _ => return none

/-- The state of a resolver in one line. -/
def describe (resolver : Resolver) (session : Session) : String :=
  "Resolver \x7b layout: " ++ resolver.layout.name ++ ", max_depth: " ++
    toString resolver.maxDepth ++ ", cached: " ++ toString session.memo.size ++ ", .. \x7d"

end Resolver

end CilRecovery
