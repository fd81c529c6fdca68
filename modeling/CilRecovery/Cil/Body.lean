import CilRecovery.Cil.Instruction

/-!
Method bodies with exception handlers whose ranges are labels.
-/
namespace CilRecovery

/-- The kind of an exception handling clause. -/
inductive HandlerKind where
  | typed
  | filter
  | final
  | fault
  deriving DecidableEq, Repr

namespace HandlerKind

/-- The number of a clause kind in metadata. -/
def flags : HandlerKind → Nat
  | typed => 0
  | filter => 1
  | final => 2
  | fault => 4

def ofNat? : Nat → Option HandlerKind
  | 0 => some typed
  | 1 => some filter
  | 2 => some final
  | 4 => some fault
  | _ => none

end HandlerKind

/-- A range of instructions, the end not included. -/
structure LabelRange where
  start : Label
  finish : Label
  deriving DecidableEq, Repr

structure ExceptionHandler where
  kind : HandlerKind
  guarded : LabelRange
  handler : LabelRange
  /-- The first instruction of the filter. -/
  filter : Option Label := none
  /-- The type that a typed clause catches. -/
  catchType : Option TypeSig := none
  deriving DecidableEq, Repr

structure MethodBody where
  instructions : List Instruction := []
  handlers : List ExceptionHandler := []
  locals : List TypeSig := []
  initLocals : Bool := false
  skipVerification : Bool := false
  deriving DecidableEq, Repr, Inhabited

namespace MethodBody

def placeholderCount (body : MethodBody) : Nat :=
  body.instructions.countP Instruction.isPlaceholder

/-- Whether a range lies in a body of some length and starts at one of its instructions. -/
def rangeInside (length : Nat) (range : LabelRange) : Bool :=
  range.start < length && range.finish ≤ length && range.start ≤ range.finish

/-- Whether every target and every boundary of a handler lies in the body. -/
def labelsInRange (body : MethodBody) : Bool :=
  let length := body.instructions.length
  (body.instructions.flatMap Instruction.targets).all (· < length) &&
    body.handlers.all fun handler =>
      rangeInside length handler.guarded && rangeInside length handler.handler &&
        handler.filter.all (· < length)

end MethodBody

end CilRecovery
