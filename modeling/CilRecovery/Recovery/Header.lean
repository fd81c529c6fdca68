import CilRecovery.Cil.Body
import CilRecovery.Reader
import CilRecovery.Virtual.Layout

/-!
Method headers and the tables of exception handlers behind them, as they stand in the method
stream. Types are positions of operand records, and code is addressed by virtual offsets.
-/
namespace CilRecovery

structure HeaderParam where
  /-- Position of the parameter type. -/
  type : Int32
  byRef : Bool
  deriving DecidableEq, Repr

structure MethodHeader where
  /-- Positions of the types of local variables. -/
  locals : List Int32 := []
  params : List HeaderParam := []
  name : String := ""
  /-- Position of the return type. -/
  ret : Int32 := 0
  /-- Position of the declaring type. -/
  declaring : Int32 := 0
  bindingFlags : UInt8 := 0
  deriving DecidableEq, Repr, Inhabited

namespace MethodHeader

def isStatic (header : MethodHeader) : Bool := header.bindingFlags &&& 8 != 0

def readParam : ReadM HeaderParam := do
  let type ← Reader.i32
  let byRef ← Reader.bool
  return ⟨type, byRef⟩

/-- Reads one field into a header. -/
def readField (header : MethodHeader) : HeaderField → ReadM MethodHeader
  | .locals => return { header with locals := ← Reader.i32List }
  | .parameters => return { header with params := ← Reader.list readParam }
  | .name => return { header with name := ← Reader.string }
  | .returnType => return { header with ret := ← Reader.i32 }
  | .declaringType => return { header with declaring := ← Reader.i32 }
  | .bindingFlags => return { header with bindingFlags := ← Reader.u8 }

/-- Reads fields in some order. -/
def readFields (header : MethodHeader) : List HeaderField → ReadM MethodHeader
  | [] => return header
  | field :: rest => do
    let header ← readField header field
    readFields header rest

/-- Reads a header in the order of the layout. -/
def read (layout : HeaderLayout) : ReadM MethodHeader := readFields {} layout.order

end MethodHeader

/-- The start and the length of a range of virtual offsets. -/
structure OffsetRange where
  start : UInt32
  length : UInt32
  deriving DecidableEq, Repr

/-- The end of a range, at most the largest offset there is. -/
def OffsetRange.finish (range : OffsetRange) : Nat :=
  min (range.start.toNat + range.length.toNat) 0xFFFFFFFF

/-- An exception handler in virtual offsets. -/
structure HandlerRecord where
  /-- The number of the clause kind. -/
  code : UInt8
  /-- Position of the caught type. -/
  catchType : Int32
  guarded : OffsetRange
  handler : OffsetRange
  /-- The start of the filter. -/
  filter : UInt32
  deriving DecidableEq, Repr

namespace HandlerRecord

def readRange : ReadM OffsetRange := do
  let start ← Reader.u32
  let length ← Reader.u32
  return ⟨start, length⟩

def read : ReadM HandlerRecord := do
  let code ← Reader.u8
  let catchType ← Reader.i32
  let guarded ← readRange
  let handler ← readRange
  let filter ← Reader.u32
  return ⟨code, catchType, guarded, handler, filter⟩

/-- Reads the records behind their number. -/
def readTable : ReadM (List HandlerRecord) := Reader.list read

def kind (record : HandlerRecord) : Except Error HandlerKind :=
  match HandlerKind.ofNat? record.code.toNat with
  | some kind => .ok kind
  | none => .error (.malformed ("Unknown exception handler kind " ++ toString record.code.toNat))

end HandlerRecord

end CilRecovery
