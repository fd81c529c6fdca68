import CilRecovery.Bytes
import CilRecovery.Text.Numeral

/-!
Type references and type signatures. Two references have the same name when their names and
nesting agree, whatever assembly they point to; two signatures are compatible when they agree up
to that, generic parameters and instantiations matching anything.
-/
namespace CilRecovery

/-- The version of an assembly. -/
structure Version where
  major : UInt16
  minor : UInt16
  build : UInt16
  revision : UInt16
  deriving DecidableEq, Repr

def Version.render (version : Version) : String :=
  String.intercalate "."
    [toString version.major.toNat, toString version.minor.toNat, toString version.build.toNat,
      toString version.revision.toNat]

/-- What identifies a referenced assembly. -/
structure AssemblyIdentity where
  name : String
  version : Option Version := none
  /-- Absent where the culture is neutral. -/
  culture : Option String := none
  publicKeyToken : Option Bytes := none
  deriving DecidableEq, Repr

def AssemblyIdentity.render (identity : AssemblyIdentity) : String :=
  let version := (identity.version.map fun v => ", Version=" ++ v.render).getD ""
  let culture := (identity.culture.map fun c => ", Culture=" ++ c).getD ""
  let token := (identity.publicKeyToken.map fun bytes =>
    ", PublicKeyToken=" ++ String.join (bytes.map fun b => Text.hex 2 b.toNat)).getD ""
  identity.name ++ version ++ culture ++ token

/-- Where a type is defined. -/
inductive Scope where
  /-- In the module at hand. -/
  | local
  /-- In another assembly. -/
  | assembly (identity : AssemblyIdentity)
  deriving DecidableEq, Repr

/-- A named type. -/
inductive TypeRef where
  | top (scope : Scope) (space name : String)
  | nested (outer : TypeRef) (scope : Scope) (space name : String)
  deriving DecidableEq, Repr

instance : Inhabited TypeRef := ⟨.top .local "" ""⟩

namespace TypeRef

def scope : TypeRef → Scope
  | top scope _ _ => scope
  | nested _ scope _ _ => scope

/-- The namespace; a nested type has none as a rule. -/
def space : TypeRef → String
  | top _ space _ => space
  | nested _ _ space _ => space

def name : TypeRef → String
  | top _ _ name => name
  | nested _ _ _ name => name

/-- A type nested in another, defined where that one is. -/
def nestedIn (outer : TypeRef) (name : String) : TypeRef :=
  nested outer outer.scope "" name

/-- Moves a type and all that enclose it to a scope. -/
def withScope (scope : Scope) : TypeRef → TypeRef
  | top _ space name => top scope space name
  | nested outer _ space name => nested (outer.withScope scope) scope space name

/-- The full name, with a slash between levels of nesting. -/
def fullName : TypeRef → String
  | top _ space name => if space.isEmpty then name else space ++ "." ++ name
  | nested outer _ _ name => outer.fullName ++ "/" ++ name

/-- The character between the name of a generic type and the number of its parameters. -/
def arityMark : Char := Char.ofNat 0x60

/-- The number after the last arity mark in the name, zero where there is none. -/
def arity (ref : TypeRef) : Nat :=
  let chars := ref.name.toList
  if chars.contains arityMark then
    (Text.parseNat? 10 0x100000000 (chars.reverse.takeWhile (· != arityMark)).reverse).getD 0
  else 0

def isExternal (ref : TypeRef) : Bool :=
  match ref.scope with
  | .assembly _ => true
  | .local => false

/-- Equality of names and nesting. -/
def sameName : TypeRef → TypeRef → Bool
  | top _ space name, top _ space' name' => space == space' && name == name'
  | nested outer _ space name, nested outer' _ space' name' =>
    space == space' && name == name' && outer.sameName outer'
  | _, _ => false

end TypeRef

/-- The types that a signature spells out. -/
inductive Primitive where
  | void | boolean | char | i1 | u1 | i2 | u2 | i4 | u4 | i8 | u8 | r4 | r8 | i | u | string
  | object | typedByRef
  deriving DecidableEq, Repr

namespace Primitive

def all : List Primitive :=
  [void, boolean, char, i1, u1, i2, u2, i4, u4, i8, u8, r4, r8, i, u, string, object, typedByRef]

/-- The name of the type in the namespace `System`. -/
def name : Primitive → String
  | void => "Void"
  | boolean => "Boolean"
  | char => "Char"
  | i1 => "SByte"
  | u1 => "Byte"
  | i2 => "Int16"
  | u2 => "UInt16"
  | i4 => "Int32"
  | u4 => "UInt32"
  | i8 => "Int64"
  | u8 => "UInt64"
  | r4 => "Single"
  | r8 => "Double"
  | i => "IntPtr"
  | u => "UIntPtr"
  | string => "String"
  | object => "Object"
  | typedByRef => "TypedReference"

/-- The short name of the element type. -/
def code : Primitive → String
  | void => "Void"
  | boolean => "Boolean"
  | char => "Char"
  | i1 => "I1"
  | u1 => "U1"
  | i2 => "I2"
  | u2 => "U2"
  | i4 => "I4"
  | u4 => "U4"
  | i8 => "I8"
  | u8 => "U8"
  | r4 => "R4"
  | r8 => "R8"
  | i => "I"
  | u => "U"
  | string => "String"
  | object => "Object"
  | typedByRef => "TypedByRef"

def ofName? (name : String) : Option Primitive :=
  all.find? fun p => p.name == name

end Primitive

/-- A type signature. -/
inductive TypeSig where
  | primitive (kind : Primitive)
  /-- A class or a value type. -/
  | named (isValue : Bool) (ref : TypeRef)
  /-- A generic parameter of the declaring type. -/
  | typeParam (index : Nat)
  /-- A generic parameter of the method. -/
  | methodParam (index : Nat)
  | inst (generic : TypeSig) (args : List TypeSig)
  /-- An array of one dimension that starts at zero. -/
  | vector (element : TypeSig)
  | array (element : TypeSig) (rank : Nat)
  | pointer (target : TypeSig)
  | byRef (target : TypeSig)
  deriving Repr, Inhabited

namespace TypeSig

mutual

/-- Equality of signatures, decided. -/
def same : TypeSig → TypeSig → Bool
  | primitive a, primitive b => a == b
  | named v a, named w b => v == w && a == b
  | typeParam a, typeParam b => a == b
  | methodParam a, methodParam b => a == b
  | inst a as, inst b bs => same a b && sameAll as bs
  | vector a, vector b => same a b
  | array a m, array b n => same a b && m == n
  | pointer a, pointer b => same a b
  | byRef a, byRef b => same a b
  | _, _ => false

/-- Equality of lists of signatures, decided. -/
def sameAll : List TypeSig → List TypeSig → Bool
  | [], [] => true
  | a :: as, b :: bs => same a b && sameAll as bs
  | _, _ => false

end

mutual

theorem same_iff (a b : TypeSig) : same a b = true ↔ a = b := by
  cases a <;> cases b <;>
    simp [same, same_iff, sameAll_iff]

theorem sameAll_iff (as bs : List TypeSig) : sameAll as bs = true ↔ as = bs := by
  cases as <;> cases bs <;> simp [sameAll, same_iff, sameAll_iff]

end

instance : DecidableEq TypeSig := fun a b => decidable_of_iff (same a b = true) (same_iff a b)

def void : TypeSig := primitive .void

def i4 : TypeSig := primitive .i4

/-- The signature of a named type: a primitive if the name is one of `System`. -/
def ofRef (ref : TypeRef) (isValue : Bool) : TypeSig :=
  match ref with
  | .top _ "System" name =>
    match Primitive.ofName? name with
    | some kind => primitive kind
    | none => named isValue ref
  | _ => named isValue ref

/-- The named type under a signature, found through instantiations only. -/
def typeRef? : TypeSig → Option TypeRef
  | named _ ref => some ref
  | inst generic _ => generic.typeRef?
  | _ => none

/-- The arguments of an instantiation. -/
def genericArgs : TypeSig → List TypeSig
  | inst _ args => args
  | _ => []

/-- Whether a signature matches every other. -/
def isWildcard : TypeSig → Bool
  | typeParam _ | methodParam _ | inst _ _ => true
  | _ => false

/-- Agreement up to scopes, the difference of class and value type, and wildcards. -/
def compatible : TypeSig → TypeSig → Bool
  | a, b =>
    if a.isWildcard || b.isWildcard then true
    else
      match a, b with
      | vector a, vector b => compatible a b
      | pointer a, pointer b => compatible a b
      | byRef a, byRef b => compatible a b
      | array a m, array b n => m == n && compatible a b
      | named _ a, named _ b => a.sameName b
      | primitive a, primitive b => a == b
      | _, _ => false

mutual

/-- The name for display. -/
def fullName : TypeSig → String
  | primitive kind => "System." ++ kind.name
  | named _ ref => ref.fullName
  | typeParam index => "!" ++ toString index
  | methodParam index => "!!" ++ toString index
  | inst generic args => fullName generic ++ "<" ++ String.intercalate "," (fullNames args) ++ ">"
  | vector element => fullName element ++ "[]"
  | array element rank =>
    fullName element ++ "[" ++ String.ofList (List.replicate (rank - 1) ',') ++ "]"
  | pointer target => fullName target ++ "*"
  | byRef target => fullName target ++ "&"

/-- The names for display of a list of signatures. -/
def fullNames : List TypeSig → List String
  | [] => []
  | sig :: rest => fullName sig :: fullNames rest

end

end TypeSig

end CilRecovery
