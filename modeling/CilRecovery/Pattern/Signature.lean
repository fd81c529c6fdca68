import CilRecovery.Pattern.Symbol

/-!
Signatures: a shape of instructions together with a check of the operands of a match. A check
may ask for a match in the body of a method that is called.
-/
namespace CilRecovery

/-- How a shape is laid on a body. -/
inductive MatchMode where
  /-- It covers the whole body. -/
  | contiguous
  /-- It matches a run of instructions anywhere in the body. -/
  | window
  deriving DecidableEq, Repr

def MatchMode.name : MatchMode → String
  | contiguous => "Contiguous"
  | window => "Window"

/-- What a type operand has to be. -/
inductive TypeCheck where
  | exactly (sig : TypeSig)
  /-- A type with this full name. -/
  | withName (fullName : String)
  /-- One of the two widths of a slot number. -/
  | slotIndex
  deriving DecidableEq, Repr

/-- What a field operand has to be. -/
inductive FieldCheck where
  /-- The array of local slots. -/
  | locals
  /-- The array of argument slots. -/
  | arguments
  | ofType (sig : TypeSig)
  | any
  deriving DecidableEq, Repr

mutual

/-- A shape with a check. -/
inductive Signature where
  | mk (name : String) (symbols : List Symbol) (mode : MatchMode) (check : Check)

/-- A check of the operands in a match. -/
inductive Check where
  /-- Nothing is asked. -/
  | always
  /-- The instruction at `index` loads the constant `value`. -/
  | constant (index : Nat) (value : Int32)
  /-- The instruction at `index` has a method operand that is as asked for. -/
  | call (index : Nat) (callee : Callee)
  /-- The instruction at `index` calls a method that the same signature matches again. -/
  | again (index : Nat)
  /-- Holds from the nesting depth `limit` on; before that the first instruction calls a method
  that the same signature matches again. -/
  | depthAtLeast (limit : Nat)
  /-- Every method, type, field and constant operand is as asked for, in order, and none is
  missing. -/
  | operands (calls : List Callee) (types : List TypeCheck) (fields : List FieldCheck)
      (constants : List Int32)

/-- What a method operand has to be. -/
inductive Callee where
  /-- The method that pushes a value on the evaluation stack. -/
  | push
  /-- The method that pops a value from it. -/
  | pop
  /-- The method that sets the instruction pointer. -/
  | jump
  /-- A member with this declaring type and name. -/
  | member (declaring name : String)
  /-- A method of the module in whose body the signature has a match. -/
  | body (signature : Signature)
  | any

end

instance : Inhabited Signature := ⟨.mk "" [] .window .always⟩

instance : Inhabited Callee := ⟨.any⟩

namespace Signature

def name : Signature → String
  | mk name _ _ _ => name

def symbols : Signature → List Symbol
  | mk _ symbols _ _ => symbols

def mode : Signature → MatchMode
  | mk _ _ mode _ => mode

def check : Signature → Check
  | mk _ _ _ check => check

/-- Whether anything is asked of the operands. -/
def isChecked (signature : Signature) : Bool :=
  match signature.check with
  | .always => false
  | _ => true

def render (signature : Signature) : String :=
  signature.name ++ ": [" ++ String.intercalate ", " (signature.symbols.map Symbol.render) ++ "]"

/-- Whether instructions have the shape, one for each symbol. -/
def hasShape (signature : Signature) (window : List Instruction) : Bool :=
  window.length == signature.symbols.length &&
    (List.zipWith Symbol.accepts signature.symbols window).all id

end Signature

end CilRecovery
