import CilRecovery.Metadata.Host

/-!
Looking for the method that a record describes, and putting a reference together where none is
found.
-/
namespace CilRecovery

namespace TypeSig

mutual

/-- Turns types equal to a generic argument back into the parameter that it was given for, method
parameters first. -/
def generalize (methodArgs typeArgs : List TypeSig) (sig : TypeSig) : TypeSig :=
  if sig ∈ methodArgs then .methodParam (methodArgs.idxOf sig)
  else if sig ∈ typeArgs then .typeParam (typeArgs.idxOf sig)
  else
    match sig with
    | inst generic args => inst generic (generalizeAll methodArgs typeArgs args)
    | vector element => vector (generalize methodArgs typeArgs element)
    | pointer target => pointer (generalize methodArgs typeArgs target)
    | byRef target => byRef (generalize methodArgs typeArgs target)
    | array element rank => array (generalize methodArgs typeArgs element) rank
    | other => other

/-- Generalizes each type of a list. -/
def generalizeAll (methodArgs typeArgs : List TypeSig) : List TypeSig → List TypeSig
  | [] => []
  | sig :: rest =>
    generalize methodArgs typeArgs sig :: generalizeAll methodArgs typeArgs rest

end

/-- Whether two declaring types are the same type up to generic arguments and scope. -/
def sameDeclaring (a b : TypeSig) : Bool :=
  match a.typeRef?, b.typeRef? with
  | some x, some y => x.sameName y
  | _, _ => a == b

end TypeSig

/-- Generalizes the types of a signature over generic arguments. -/
def MethodSig.generalize (sig : MethodSig) (methodArgs typeArgs : List TypeSig) : MethodSig :=
  { hasThis := sig.hasThis
    ret := sig.ret.generalize methodArgs typeArgs
    params := TypeSig.generalizeAll methodArgs typeArgs sig.params
    genericParams := methodArgs.length }

/-- A method as a record describes it. -/
structure MethodQuery where
  declaring : TypeSig
  name : String
  isStatic : Bool
  ret : TypeSig
  params : List TypeSig
  args : List TypeSig
  deriving DecidableEq, Repr

namespace MethodQuery

/-- The described parameters without the instance, which a record of an instance method may list
first. -/
def explicitParams (query : MethodQuery) (declared : Nat) : List TypeSig :=
  match query.params with
  | first :: rest =>
    if !query.isStatic && rest.length == declared && first.compatible query.declaring then rest
    else query.params
  | [] => []

def paramsMatch (query : MethodQuery) (declared : List TypeSig) : Bool :=
  let described := query.explicitParams declared.length
  described.length == declared.length && (List.zipWith TypeSig.compatible described declared).all id

def accepts (query : MethodQuery) (name : String) (sig : MethodSig) : Bool :=
  name == query.name && sig.hasThis != query.isStatic && sig.genericParams == query.args.length &&
    sig.ret.compatible query.ret && query.paramsMatch sig.params

/-- Whether a reference is to the method that a record describes. -/
def answeredBy (query : MethodQuery) (method : MethodRef) : Bool :=
  method.declaring.sameDeclaring query.declaring && query.accepts method.name method.sig

def findImported? (query : MethodQuery) (imported : List MethodRef) : Option MethodSig :=
  (imported.find? query.answeredBy).map MethodRef.sig

def findDeclared? (query : MethodQuery) (definition : TypeDef) : Option MethodSig :=
  (definition.methods.find? fun method => query.accepts method.name method.sig).map MethodDef.sig

/-- The signature that the description gives, generalized over the generic arguments. -/
def synthesize (query : MethodQuery) : MethodSig :=
  ({ hasThis := !query.isStatic, ret := query.ret, params := query.params } : MethodSig).generalize
    query.args query.declaring.genericArgs

/-- The definition of the declaring type. -/
def definition? (query : MethodQuery) (host : Host) : Option TypeDef :=
  query.declaring.typeRef?.bind host.findType?

/-- Whether the declaring type is one of the module itself. -/
def isInternal (query : MethodQuery) (host : Host) : Bool :=
  (query.definition? host).any fun definition => !definition.isExternal

/-- The method that the description means in a module. A type of the module itself is searched
for its methods; for any other type, an import comes before a declaration. -/
def resolve (query : MethodQuery) (host : Host) : MethodRef × Host :=
  let declared := (query.definition? host).bind query.findDeclared?
  let found :=
    if query.isInternal host then declared
    else (query.findImported? host.importedMethods).or declared
  let method : MethodRef :=
    ⟨query.declaring, query.name, found.getD query.synthesize, query.args⟩
  (method, if query.isInternal host then host else host.importMethod method)

end MethodQuery

/-- The field of a type with some name. A type that is not known may have been imported from. -/
def Host.resolveField (host : Host) (declaring : TypeSig) (name : String) :
    Option FieldRef × Host :=
  match declaring.typeRef? with
  | none => (none, host)
  | some ref =>
    match host.findType? ref with
    | some definition =>
      match definition.field? name with
      | none => (none, host)
      | some found =>
        let field : FieldRef := ⟨declaring, name, some found.type⟩
        (some field, if definition.isExternal then host.importField field else host)
    | none =>
      (host.importedFields.find? fun field =>
        field.name == name && field.declaring.sameDeclaring declaring, host)

end CilRecovery
