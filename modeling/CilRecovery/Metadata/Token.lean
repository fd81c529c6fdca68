import CilRecovery.Text.Blank
import CilRecovery.Text.Numeral

/-!
Metadata tokens: the high byte names the table, the low 24 bits the row.
-/
namespace CilRecovery

/-- The handle of a metadata row. -/
structure Token where
  value : UInt32
  deriving DecidableEq, Repr, Inhabited

/-- The tables that an operand can point into. -/
inductive TokenKind where
  | typeRef
  | typeDef
  | field
  | methodDef
  | memberRef
  | typeSpec
  | methodSpec
  | userString
  deriving DecidableEq, Repr

namespace TokenKind

def name : TokenKind → String
  | typeRef => "TypeRef"
  | typeDef => "TypeDef"
  | field => "Field"
  | methodDef => "MethodDef"
  | memberRef => "MemberRef"
  | typeSpec => "TypeSpec"
  | methodSpec => "MethodSpec"
  | userString => "UserString"

end TokenKind

namespace Token

def table (token : Token) : UInt32 := token.value >>> 24

def row (token : Token) : UInt32 := token.value &&& 0x00FFFFFF

def isNull (token : Token) : Bool := token.value == 0

/-- The kind of row, absent for tables that no operand points into. -/
def kind? (token : Token) : Option TokenKind :=
  match token.table with
  | 0x01 => some .typeRef
  | 0x02 => some .typeDef
  | 0x04 => some .field
  | 0x06 => some .methodDef
  | 0x0A => some .memberRef
  | 0x1B => some .typeSpec
  | 0x2B => some .methodSpec
  | 0x70 => some .userString
  | _ => none

/-- A token in a table, from the number of its row. -/
def ofRow (table row : UInt32) : Token := ⟨(table <<< 24) ||| row⟩

def render (token : Token) : String := "0x" ++ Text.hex 8 token.value.toNat

/-- The token with its parts spelled out. -/
def describe (token : Token) : String :=
  "Token(" ++ token.render ++ ", table: 0x" ++ Text.hex 2 token.table.toNat ++ ", row: " ++
    toString token.row.toNat ++ ")"

/-- Reads hexadecimal digits after `0x` or `0X`, and decimal digits otherwise. -/
def ofChars? (text : List Char) : Option Token :=
  let number :=
    match text with
    | '0' :: 'x' :: digits => Text.parseNat? 16 0x100000000 digits
    | '0' :: 'X' :: digits => Text.parseNat? 16 0x100000000 digits
    | digits => Text.parseNat? 10 0x100000000 digits
  number.map fun n => ⟨UInt32.ofNat n⟩

end Token

end CilRecovery
