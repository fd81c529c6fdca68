import CilRecovery.Permutation.Basic
import CilRecovery.Stream.View
import CilRecovery.Text.Utf8

/-!
Reading numbers, texts and lists from plain bytes or a layered stream. Numbers of more than one
byte pass through the profile in force.
-/
namespace CilRecovery

/-- A reader: a view of a stream, the profiles, and which of them is in force. -/
structure Reader where
  view : Stream.View
  profiles : Profiles := {}
  active : ProfileKind := .general
  deriving DecidableEq

/-- An operation on a reader. A failed operation leaves the reader where its last step left it. -/
abbrev ReadM := ExceptT Error (StateM Reader)

/-- A decimal number of 96 bits with a scale and a sign. -/
structure Decimal where
  lo : Int32
  mid : Int32
  hi : Int32
  flags : Int32
  deriving DecidableEq, Repr

namespace Decimal

/-- The power of ten that the number is divided by. -/
def scale (decimal : Decimal) : Nat := decimal.flags.toUInt32.toNat / 0x10000 % 256

def isNegative (decimal : Decimal) : Bool := decimal.flags < 0

end Decimal

namespace Reader

/-- The longest text and list that are read. -/
def lengthLimit : Nat := 0x100000

/-- What a fault of the stream means to a reader: data that ends too soon, or a failure below. -/
def ofFault : Stream.Fault → Error
  | .shortRead => .outOfBounds
  | fault => .io fault.message

/-- A reader of a stream from its start. -/
def ofStream (stream : Stream.Layered) (rule : Cipher.CounterRule) (profiles : Profiles) : Reader :=
  { view := { stream, cursor := { rule } }, profiles }

/-- A reader of plain bytes. -/
def ofBytes (data : Bytes) (profiles : Profiles) : Reader :=
  ofStream { base := .memory data } .position profiles

/-- What an operation comes to from some reader, wherever it leaves it. -/
def result (operation : ReadM α) (reader : Reader) : Except Error α := (operation.run.run reader).1

/-- The position in the stream. -/
def position (reader : Reader) : Nat := reader.view.cursor.position

/-- Runs an operation on the stream under a reader. -/
def onView (operation : Stream.ViewM α) : ReadM α := do
  let reader ← get
  let (result, view) := operation.run.run reader.view
  set { reader with view }
  match result with
  | .ok value => return value
  | .error fault => throw (ofFault fault)

/-- Reads exactly `count` raw bytes. If they run out, those that are there have been read. -/
def bytes (count : Nat) : ReadM Bytes := onView (Stream.View.readExact count)

def currentPosition : ReadM Nat := return (← get).position

def seek (position : Nat) : ReadM Unit := do
  let _ ← onView (Stream.View.seek .start position)

/-- Moves forward, past the end if need be. -/
def skip (count : Nat) : ReadM Unit := do
  if 0x8000000000000000 ≤ count then throw .outOfBounds
  let _ ← onView (Stream.View.seek .current count)

def setProfile (kind : ProfileKind) : ReadM Unit :=
  modify fun reader => { reader with active := kind }

/-- Reads a number of some width through the profile in force. -/
def number (width : Width) : ReadM Nat := do
  let bytes ← bytes width.bytes
  let reader ← get
  return ((reader.profiles.get reader.active).get width).decode bytes

def u8 : ReadM UInt8 := do
  let bytes ← bytes 1
  return bytes.headD 0

def i8 : ReadM Int8 := return (← u8).toInt8

/-- Any byte but zero is true. -/
def bool : ReadM Bool := return (← u8) != 0

def u16 : ReadM UInt16 := return UInt16.ofNat (← number .two)

def i16 : ReadM Int16 := return (← u16).toInt16

def u32 : ReadM UInt32 := return UInt32.ofNat (← number .four)

def i32 : ReadM Int32 := return (← u32).toInt32

def u64 : ReadM UInt64 := return UInt64.ofNat (← number .eight)

def i64 : ReadM Int64 := return (← u64).toInt64

def decimal : ReadM Decimal := do
  let lo ← i32
  let mid ← i32
  let hi ← i32
  let flags ← i32
  return ⟨lo, mid, hi, flags⟩

/-- Reads groups of seven bits, the lowest first, until a byte without the high bit; bits beyond
32 are dropped. -/
def groups : (left : Nat) → (shift sofar : Nat) → ReadM Nat
  | 0, _, _ => throw (.malformed "7-bit encoded integer exceeds five bytes")
  | left + 1, shift, sofar => do
    let byte ← u8
    let value := sofar + (byte.toNat % 128) <<< shift
    if byte.toNat < 128 then return value % 0x100000000
    groups left (shift + 7) value

/-- Reads a number of at most five groups of seven bits. -/
def sevenBit : ReadM Nat := groups 5 0 0

/-- Reads a text behind its length in bytes. -/
def string : ReadM String := do
  let length ← sevenBit
  if lengthLimit < length then
    throw (.malformed ("String length " ++ toString length ++ " exceeds limit"))
  match Text.Utf8.decode (← bytes length) with
  | .ok chars => return String.ofList chars
  | .error fault => throw (.malformed ("Invalid UTF-8 string - " ++ fault.message))

/-- Reads the number of elements of a list. -/
def count : ReadM Nat := do
  let count ← i32
  if 0 ≤ count.toInt ∧ count.toInt ≤ lengthLimit then return count.toInt.toNat
  throw (.malformed ("Invalid element count " ++ toString count.toInt))

/-- Reads a number of elements. -/
def repeated (element : ReadM α) : (count : Nat) → ReadM (List α)
  | 0 => return []
  | count + 1 => do
    let first ← element
    let rest ← repeated element count
    return first :: rest

/-- Reads a list behind the number of its elements. -/
def list (element : ReadM α) : ReadM (List α) := do
  repeated element (← count)

def i32List : ReadM (List Int32) := list i32

end Reader

end CilRecovery
