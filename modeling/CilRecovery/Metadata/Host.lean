import CilRecovery.Cil.Body
import CilRecovery.Error
import CilRecovery.Table

/-!
The module whose methods are recovered: its types and tokens, the bodies of its methods, the
members it imports and the bodies that have been replaced.
-/
namespace CilRecovery

structure FieldDef where
  token : Token
  name : String
  type : TypeSig
  isStatic : Bool := false
  deriving DecidableEq, Repr

structure MethodDef where
  token : Token
  name : String
  sig : MethodSig
  deriving DecidableEq, Repr

/-- A type definition. An external one belongs to another assembly; a member found in it has to
be imported before use. -/
structure TypeDef where
  ref : TypeRef
  isValue : Bool := false
  isExternal : Bool := false
  genericParams : Nat := ref.arity
  fields : List FieldDef := []
  methods : List MethodDef := []
  deriving DecidableEq, Repr

namespace TypeDef

def sig (definition : TypeDef) : TypeSig := .ofRef definition.ref definition.isValue

def field? (definition : TypeDef) (name : String) : Option FieldDef :=
  definition.fields.find? fun field => field.name == name

end TypeDef

/-- The tables in which tokens are handed out. -/
inductive HostTable where
  | types
  | fields
  | methods
  | strings
  deriving DecidableEq, Repr

/-- The number of a table in the high byte of its tokens. -/
def HostTable.number : HostTable → UInt32
  | types => 0x02
  | fields => 0x04
  | methods => 0x06
  | strings => 0x70

/-- The module whose methods are recovered. -/
structure Host where
  name : String
  types : List TypeDef := []
  tokens : Table Token Resolved := {}
  methodTokens : Table MethodRef Token := {}
  bodies : Table Token (List Instruction) := {}
  /-- The last row handed out in each table. -/
  rows : Table HostTable Nat := {}
  importedMethods : List MethodRef := []
  importedFields : List FieldRef := []
  replaced : Table Token MethodBody := {}
  deriving DecidableEq

/-- Changes the first element for which the test holds. -/
def modifyFirst (test : α → Bool) (change : α → α) : List α → List α
  | [] => []
  | a :: rest => if test a then change a :: rest else a :: modifyFirst test change rest

/-- Adds an element at the end unless it is there. -/
def addNew [DecidableEq α] (a : α) (list : List α) : List α :=
  if a ∈ list then list else list ++ [a]

namespace Host

/-- Hands out the next row of a table. -/
def allocate (host : Host) (table : HostTable) : Token × Host :=
  let row := (host.rows.get? table).getD 0 + 1
  (Token.ofRow table.number (UInt32.ofNat row), { host with rows := host.rows.insert table row })

/-- Enters a method under its token and its token under the method. -/
def registerMethod (host : Host) (token : Token) (method : MethodRef) : Host :=
  { host with
    tokens := host.tokens.insert token (.method method)
    methodTokens := host.methodTokens.insert method token }

/-- Adds a type. Its fields and methods keep the tokens they come with. -/
def addType (host : Host) (definition : TypeDef) : Token × Host :=
  let (token, host) := host.allocate .types
  let sig := definition.sig
  let host := definition.fields.foldl (fun host field =>
    { host with
      tokens := host.tokens.insert field.token (.field ⟨sig, field.name, some field.type⟩) }) host
  let host := definition.methods.foldl (fun host method =>
    host.registerMethod method.token ⟨sig, method.name, method.sig, []⟩) host
  (token,
    { host with
      tokens := host.tokens.insert token (.type sig)
      types := host.types ++ [definition] })

/-- Adds a method with a body, and lists it in its declaring type if that is known. -/
def defineMethod (host : Host) (method : MethodRef) (body : List Instruction) : Token × Host :=
  let (token, host) := host.allocate .methods
  let types :=
    match method.declaring.typeRef? with
    | none => host.types
    | some declaring =>
      modifyFirst (fun definition => definition.ref.sameName declaring)
        (fun definition =>
          { definition with methods := definition.methods ++ [⟨token, method.name, method.sig⟩] })
        host.types
  let host := { host with types }.registerMethod token method
  (token, { host with bodies := host.bodies.insert token body })

/-- The definition of a type, found by its name. -/
def findType? (host : Host) (ref : TypeRef) : Option TypeDef :=
  host.types.find? fun definition => definition.ref.sameName ref

/-- Adds a field to a type, or a field of a class that is not known. -/
def defineField (host : Host) (declaring : TypeRef) (name : String) (type : TypeSig)
    (isStatic : Bool) : FieldRef × Host :=
  let (token, host) := host.allocate .fields
  let sig := ((host.findType? declaring).map TypeDef.sig).getD (.named false declaring)
  let types :=
    modifyFirst (fun definition => definition.ref.sameName declaring)
      (fun definition =>
        { definition with fields := definition.fields ++ [⟨token, name, type, isStatic⟩] })
      host.types
  let field : FieldRef := ⟨sig, name, some type⟩
  (field, { host with types, tokens := host.tokens.insert token (.field field) })

def addUserString (host : Host) (text : String) : Token × Host :=
  let (token, host) := host.allocate .strings
  (token, { host with tokens := host.tokens.insert token (.string text) })

/-- Enters what a token stands for. -/
def addToken (host : Host) (token : Token) (resolved : Resolved) : Host :=
  match resolved with
  | .method method => host.registerMethod token method
  | _ => { host with tokens := host.tokens.insert token resolved }

def lookupToken? (host : Host) (token : Token) : Option Resolved := host.tokens.get? token

def isValueType (host : Host) (ref : TypeRef) : Bool :=
  (host.findType? ref).any TypeDef.isValue

def importMethod (host : Host) (method : MethodRef) : Host :=
  { host with importedMethods := addNew method host.importedMethods }

def importField (host : Host) (field : FieldRef) : Host :=
  { host with importedFields := addNew field host.importedFields }

def methodBody? (host : Host) (token : Token) : Option (List Instruction) := host.bodies.get? token

def methodToken? (host : Host) (method : MethodRef) : Option Token := host.methodTokens.get? method

/-- The body of a method that is called. -/
def calleeBody? (host : Host) (method : MethodRef) : Option (List Instruction) :=
  (host.methodToken? method).bind host.methodBody?

/-- Replaces the body of a method that has one. -/
def replaceBody (host : Host) (token : Token) (body : MethodBody) : Except Error Host :=
  if host.bodies.contains token then .ok { host with replaced := host.replaced.insert token body }
  else .error (.malformed ("Method " ++ token.render ++ " is not defined in " ++ host.name))

end Host

end CilRecovery
