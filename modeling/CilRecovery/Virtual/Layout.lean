import CilRecovery.Pattern.Match

/-!
Layouts of method headers and operand records, which differ from one protected build to the next.
They are known, or found from the methods that read headers and records.
-/
namespace CilRecovery

/-- A field of a method header. -/
inductive HeaderField where
  | locals
  | parameters
  | name
  | returnType
  | declaringType
  | bindingFlags
  deriving DecidableEq, Repr

namespace HeaderField

def all : List HeaderField :=
  [locals, parameters, name, returnType, declaringType, bindingFlags]

def label : HeaderField → String
  | locals => "Locals"
  | parameters => "Parameters"
  | name => "Name"
  | returnType => "ReturnType"
  | declaringType => "DeclaringType"
  | bindingFlags => "BindingFlags"

def ofLabel? (text : String) : Option HeaderField :=
  all.find? fun field => field.label == text

end HeaderField

/-- The order of the fields in a header: each field once. -/
structure HeaderLayout where
  order : List HeaderField
  isPerm : order.Perm HeaderField.all
  deriving DecidableEq

namespace HeaderLayout

/-- Accepts an order in which each field occurs once. -/
def ofOrder (order : List HeaderField) : Except Error HeaderLayout :=
  if valid : order.Perm HeaderField.all then .ok ⟨order, valid⟩
  else
    match HeaderField.all.find? fun field => order.count field != 1 with
    | some field =>
      .error (.bootstrap ("Header layout lists " ++ field.label ++ " " ++
        toString (order.count field) ++ " times"))
    | none => .error (.bootstrap ("Header layout has " ++ toString order.length ++ " fields"))

def default : HeaderLayout := ⟨HeaderField.all, .rfl⟩

instance : Inhabited HeaderLayout := ⟨default⟩

end HeaderLayout

/-- Where the token hint of an operand record stands. -/
inductive OperandLayout where
  | tokenFirst
  | descriptionFirst
  deriving DecidableEq, Repr, Inhabited

def OperandLayout.name : OperandLayout → String
  | tokenFirst => "TokenFirst"
  | descriptionFirst => "DescriptionFirst"

/-- The layouts of one build. -/
structure RecordLayout where
  header : HeaderLayout := .default
  operand : OperandLayout := .tokenFirst
  deriving DecidableEq, Inhabited

/-- What a method that reads a header field is for. -/
inductive ReaderRole where
  | known (field : HeaderField)
  /-- One of the two fields that are positions of types. -/
  | typePosition
  deriving DecidableEq, Repr

namespace HeaderLayout

/-- The role of a reading method, from what it returns. A method that reads an array is for
parameters if it calls a method that returns a flag. -/
def readerRole (host : Host) (reader : MethodRef) : Except Error ReaderRole :=
  match reader.sig.ret with
  | .primitive .string => .ok (.known .name)
  | .primitive .u1 => .ok (.known .bindingFlags)
  | .primitive .i4 => .ok .typePosition
  | .vector _ =>
    match host.calleeBody? reader with
    | none => .error (.bootstrap ("Header array reader " ++ reader.name ++ " has no body"))
    | some body =>
      let readsFlag := (body.filterMap Instruction.method?).any fun callee =>
        callee.sig.ret == .primitive .boolean
      .ok (.known (if readsFlag then .parameters else .locals))
  | other =>
    .error (.bootstrap ("Header reader " ++ reader.name ++ " returns unexpected " ++
      other.fullName))

/-- The fields that a header reader stores the result of a call in, with the roles of the methods
called. -/
def stores (host : Host) : List Instruction → Except Error (List (FieldRef × ReaderRole))
  | first :: second :: rest =>
    match first.method?, second.field? with
    | some reader, some field =>
      if first.opcode.isCall && second.opcode == .stfld then do
        let role ← readerRole host reader
        let more ← stores host (second :: rest)
        return (field, role) :: more
      else stores host (second :: rest)
    | _, _ => stores host (second :: rest)
  | _ => .ok []

def loadsField (field : FieldRef) (instruction : Instruction) : Bool :=
  instruction.opcode == .ldfld && instruction.field?.any fun other => other.sameMember field

/-- Which of two fields a header consumer takes for the declaring type: the last one that it loads
before the name, which it must look up with `GetMethod` afterwards. -/
def declaringField (positions : List FieldRef) (name : FieldRef) (consumer : List Instruction) :
    Except Error FieldRef :=
  let before := consumer.takeWhile fun instruction => !loadsField name instruction
  let after := consumer.dropWhile fun instruction => !loadsField name instruction
  if after.isEmpty then .error (.bootstrap "Header consumer does not load the name")
  else if !(after.filterMap Instruction.method?).any fun method => method.name == "GetMethod" then
    .error (.bootstrap "Header consumer does not call GetMethod")
  else
    let loads := (before.reverse.filter fun instruction => instruction.opcode == .ldfld).filterMap
      Instruction.field?
    match loads.find? fun field => positions.any fun position => position.sameMember field with
    | some field => .ok field
    | none => .error (.bootstrap "Header consumer loads no type position before the name")

/-- The order of the header fields, from the methods that read and use headers. -/
def discover (host : Host) (reader consumer : List Instruction) : Except Error HeaderLayout := do
  let stored ← stores host reader
  let positions := (stored.filter fun store => store.2 == .typePosition).map Prod.fst
  if positions.length ≠ 2 then
    throw (.bootstrap ("Header reader stores " ++ toString positions.length ++
      " type positions, expected 2"))
  match stored.find? fun store => store.2 == .known .name with
  | none => throw (.bootstrap "Header reader stores no name")
  | some (name, _) =>
    let declaring ← declaringField positions name consumer
    ofOrder (stored.map fun store =>
      match store.2 with
      | .known field => field
      | .typePosition =>
        if store.1.sameMember declaring then .declaringType else .returnType)

end HeaderLayout

namespace OperandLayout

/-- The layout of operand records, from the first number or text that the method reading type
records asks for. -/
def discover (reader : List Instruction) : Except Error OperandLayout :=
  let calls := (reader.filter fun instruction => instruction.opcode.isCall).filterMap
    Instruction.method?
  let layout? (method : MethodRef) : Option OperandLayout :=
    match method.sig.ret with
    | .primitive .i4 => some .tokenFirst
    | .primitive .string => some .descriptionFirst
    | _ => none
  match calls.findSome? layout? with
  | some layout => .ok layout
  | none => .error (.bootstrap "Type record reader reads no token or name")

end OperandLayout

/-- Where the layouts come from. -/
inductive LayoutSource where
  | known (layout : RecordLayout)
  /-- The methods that read a header, use it, and read a type record. -/
  | discover (headerReader headerConsumer typeRecordReader : Token)

namespace LayoutSource

def readerBody (host : Host) (token : Token) : Except Error (List Instruction) :=
  match host.methodBody? token with
  | some body => .ok body
  | none => .error (.bootstrap ("Reader method " ++ token.render ++ " has no body"))

def layout (host : Host) : LayoutSource → Except Error RecordLayout
  | known layout => .ok layout
  | discover headerReader headerConsumer typeRecordReader => do
    let reader ← readerBody host headerReader
    let consumer ← readerBody host headerConsumer
    let header ← HeaderLayout.discover host reader consumer
    let operand ← OperandLayout.discover (← readerBody host typeRecordReader)
    return ⟨header, operand⟩

end LayoutSource

end CilRecovery
