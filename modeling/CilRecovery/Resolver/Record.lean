import CilRecovery.Reader
import CilRecovery.Virtual.Layout

/-!
Operand records: what the resolver stream holds about the types, members and texts that virtual
instructions refer to. Records refer to each other by position.
-/
namespace CilRecovery

/-- The kinds of operand records, in the order of their codes. -/
inductive RecordKind where
  | token
  | type
  | field
  | method
  | packedCall
  | userString
  deriving DecidableEq, Repr

namespace RecordKind

def all : List RecordKind := [token, type, field, method, packedCall, userString]

def code (kind : RecordKind) : Nat := all.idxOf kind

def name : RecordKind → String
  | token => "Token"
  | type => "Type"
  | field => "Field"
  | method => "Method"
  | packedCall => "EazCall"
  | userString => "UserString"

def ofCode (code : Nat) : Except Error RecordKind :=
  match all[code]? with
  | some kind => .ok kind
  | none => .error (.malformed ("Unknown operand record kind " ++ toString code))

end RecordKind

/-- A generic parameter by its place. -/
structure GenericParam where
  index : Nat
  onMethod : Bool
  deriving DecidableEq, Repr

structure TypeRecord where
  name : String
  /-- Positions of the generic arguments. -/
  args : List Int32
  param : Option GenericParam
  hint : Option Token
  deriving DecidableEq, Repr

structure FieldRecord where
  /-- Position of the declaring type. -/
  declaring : Int32
  name : String
  hint : Option Token
  deriving DecidableEq, Repr

structure MethodRecord where
  /-- Position of the declaring type. -/
  declaring : Int32
  name : String
  isStatic : Bool
  isVirtual : Bool
  /-- Position of the return type. -/
  ret : Int32
  /-- Positions of the parameter types. -/
  params : List Int32
  /-- Positions of the generic arguments. -/
  args : List Int32
  hint : Option Token
  deriving DecidableEq, Repr

/-- The two flags as bits. -/
def MethodRecord.flags (record : MethodRecord) : Nat :=
  record.isStatic.toNat + 2 * record.isVirtual.toNat

/-- A call with flags packed into the position of the method. -/
structure CallRecord where
  method : Int32
  args : List Int32
  isVirtual : Bool
  deriving DecidableEq, Repr

/-- The word that holds the position and the flags: the highest bit for a virtual call, the next
for generic arguments. -/
def CallRecord.packed (record : CallRecord) : Nat :=
  record.method.toUInt32.toNat % 0x40000000 + (if record.args.isEmpty then 0 else 0x40000000) +
    (if record.isVirtual then 0x80000000 else 0)

/-- An operand record. -/
inductive OperandRecord where
  | token (token : Token)
  | type (record : TypeRecord)
  | field (record : FieldRecord)
  | method (record : MethodRecord)
  | packedCall (record : CallRecord)
  | userString (text : String)
  deriving DecidableEq, Repr

namespace OperandRecord

def kind : OperandRecord → RecordKind
  | token _ => .token
  | type _ => .type
  | field _ => .field
  | method _ => .method
  | packedCall _ => .packedCall
  | userString _ => .userString

/-- The token that the build had for the type or member. -/
def hint? : OperandRecord → Option Token
  | type record => record.hint
  | field record => record.hint
  | method record => record.hint
  | _ => none

/-- Reads a hint; zero means none. -/
def readHint : ReadM (Option Token) := do
  let raw ← Reader.u32
  return if raw = 0 then none else some ⟨raw⟩

/-- Reads the hint before or after a description, as the layout has it. -/
def readHinted (layout : OperandLayout) (description : ReadM α) : ReadM (α × Option Token) :=
  match layout with
  | .tokenFirst => do
    let hint ← readHint
    let described ← description
    return (described, hint)
  | .descriptionFirst => do
    let described ← description
    let hint ← readHint
    return (described, hint)

/-- What is said of a generic parameter, checked once the whole record is read. -/
def checkParam (isParam : Bool) (index : Int32) (onMethod : Bool) :
    Except Error (Option GenericParam) :=
  if !isParam then .ok none
  else if index < 0 then
    .error (.malformed ("Negative generic parameter index " ++ toString index.toInt))
  else .ok (some ⟨index.toInt.toNat, onMethod⟩)

def readType (layout : OperandLayout) : ReadM TypeRecord := do
  let ((name, args, isParam, index, onMethod), hint) ← readHinted layout do
    let name ← Reader.string
    let args ← Reader.i32List
    let isParam ← Reader.bool
    let index ← Reader.i32
    let onMethod ← Reader.bool
    return (name, args, isParam, index, onMethod)
  match checkParam isParam index onMethod with
  | .ok param => return ⟨name, args, param, hint⟩
  | .error e => throw e

def readField (layout : OperandLayout) : ReadM FieldRecord := do
  let ((declaring, name), hint) ← readHinted layout do
    let declaring ← Reader.i32
    let name ← Reader.string
    return (declaring, name)
  return ⟨declaring, name, hint⟩

def readMethod (layout : OperandLayout) : ReadM MethodRecord := do
  let (record, hint) ← readHinted layout do
    let declaring ← Reader.i32
    let name ← Reader.string
    let flags ← Reader.u8
    let ret ← Reader.i32
    let params ← Reader.i32List
    let args ← Reader.i32List
    return MethodRecord.mk declaring name (flags &&& 1 != 0) (flags &&& 2 != 0) ret params args none
  return { record with hint }

def readCall : ReadM CallRecord := do
  let packed ← Reader.u32
  let args ← if packed &&& 0x40000000 != 0 then Reader.i32List else pure []
  return ⟨(packed &&& 0x3FFFFFFF).toInt32, args, packed &&& 0x80000000 != 0⟩

/-- Reads a record at the reader's position. -/
def read (layout : OperandLayout) : ReadM OperandRecord := do
  match RecordKind.ofCode (← Reader.u8).toNat with
  | .error e => throw e
  | .ok .token => return .token ⟨← Reader.u32⟩
  | .ok .userString => return .userString (← Reader.string)
  | .ok .packedCall => return .packedCall (← readCall)
  | .ok .type => return .type (← readType layout)
  | .ok .field => return .field (← readField layout)
  | .ok .method => return .method (← readMethod layout)

end OperandRecord

end CilRecovery
