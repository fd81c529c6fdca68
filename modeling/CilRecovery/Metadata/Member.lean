import CilRecovery.Metadata.TypeSig
import CilRecovery.Text.Quoted

/-!
References to fields and methods, and what an operand can resolve to.
-/
namespace CilRecovery

structure FieldRef where
  declaring : TypeSig
  name : String
  /-- The type of the field, where it is known. -/
  type : Option TypeSig := none
  deriving DecidableEq, Repr, Inhabited

def FieldRef.render (field : FieldRef) : String :=
  (field.type.map fun t => t.fullName ++ " ").getD "" ++ field.declaring.fullName ++ "::" ++
    field.name

/-- The signature of a method in terms of its generic definition. -/
structure MethodSig where
  hasThis : Bool := false
  ret : TypeSig
  params : List TypeSig := []
  genericParams : Nat := 0
  deriving DecidableEq, Repr, Inhabited

structure MethodRef where
  declaring : TypeSig
  name : String
  sig : MethodSig
  /-- The arguments of an instantiation. -/
  genericArgs : List TypeSig := []
  deriving DecidableEq, Repr, Inhabited

namespace MethodRef

def isConstructor (method : MethodRef) : Bool :=
  method.name == ".ctor" || method.name == ".cctor"

def render (method : MethodRef) : String :=
  let args :=
    if method.genericArgs.isEmpty then ""
    else "<" ++ String.intercalate "," (TypeSig.fullNames method.genericArgs) ++ ">"
  method.sig.ret.fullName ++ " " ++ method.declaring.fullName ++ "::" ++ method.name ++ args ++
    "(" ++ String.intercalate "," (TypeSig.fullNames method.sig.params) ++ ")"

end MethodRef

/-- What an operand resolves to. -/
inductive Resolved where
  | type (sig : TypeSig)
  | field (ref : FieldRef)
  | method (ref : MethodRef)
  | string (text : String)
  deriving DecidableEq, Repr

namespace Resolved

def kindName : Resolved → String
  | type _ => "type"
  | field _ => "field"
  | method _ => "method"
  | string _ => "string"

def render : Resolved → String
  | type sig => sig.fullName
  | field ref => ref.render
  | method ref => ref.render
  | string text => Text.quote text

end Resolved

end CilRecovery
