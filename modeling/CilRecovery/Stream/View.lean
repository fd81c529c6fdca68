import CilRecovery.Stream.Blocks
import CilRecovery.Cipher.Chain
import CilRecovery.Cipher.Mask

/-!
Layered streams: a resource in memory or in encrypted blocks, under a mask or none, read through
views that each have a position and a counter rule of their own.
-/
namespace CilRecovery.Stream

open Cipher (CounterRule PublicKey)

/-- A layer of protection. -/
inductive Layer where
  | mask (key : UInt32)
  | blocks (key : PublicKey)
  | chain (key : Cipher.Chain.Key)
  deriving DecidableEq, Repr

/-- A resource and its layers, the outermost first. -/
structure Resource where
  data : Bytes
  layers : List Layer := []
  deriving DecidableEq, Repr

/-- What lies under the mask. -/
inductive Base where
  | memory (data : Bytes)
  | blocks (blocks : Blocks)
  deriving DecidableEq, Repr

/-- An opened resource. -/
structure Layered where
  base : Base
  maskKey : Option UInt32 := none
  deriving DecidableEq, Repr

namespace Layered

/-- The logical length. -/
def length (stream : Layered) : Nat :=
  match stream.base with
  | .memory data => data.length
  | .blocks blocks => blocks.payloadLength

def blocks? (stream : Layered) : Option Blocks :=
  match stream.base with
  | .memory _ => none
  | .blocks blocks => some blocks

end Layered

namespace Resource

/-- Adds one layer; `outermost` says that no layer stands before it. -/
def addLayer (data : Bytes) (outermost : Bool) (stream : Layered) : Layer → Except Error Layered
  | .blocks key =>
    if outermost then do
      let blocks ← Blocks.ofResource key data
      return { stream with base := .blocks blocks }
    else .error (.crypto "Block layer must be the outermost layer")
  | .mask key =>
    if stream.maskKey.isNone then .ok { stream with maskKey := some key }
    else .error (.crypto "Duplicate XOR layer")
  | .chain _ => .error (.crypto "Chain keys apply to method ranges, not streams")

/-- Opens a resource. Blocks may only be the outermost layer, at most one mask may follow, and
chain keys have no place here. -/
def openLayers (resource : Resource) : Except Error Layered :=
  let memory : Layered := { base := .memory resource.data }
  match resource.layers with
  | [] => .ok memory
  | first :: rest => do
    let stream ← addLayer resource.data true memory first
    rest.foldlM (addLayer resource.data false) stream

end Resource

/-- What goes wrong under a reader. -/
inductive Fault where
  /-- A seek in memory out of the range of positions. -/
  | seekRange
  /-- A seek in blocks out of the range of positions. -/
  | blockSeekRange
  /-- Fewer bytes than asked for. -/
  | shortRead
  /-- A layer failed. -/
  | layer (cause : Error)
  deriving DecidableEq, Repr

def Fault.message : Fault → String
  | seekRange => "invalid seek to a negative or overflowing position"
  | blockSeekRange => "seek before start of block stream"
  | shortRead => "failed to fill whole buffer"
  | layer cause => cause.message

/-- Where a seek counts from. -/
inductive Origin where
  | start
  | current
  | finish
  deriving DecidableEq, Repr

/-- A place in a stream. -/
structure Cursor where
  position : Nat := 0
  rule : CounterRule := .position
  deriving DecidableEq, Repr

/-- A stream seen through a cursor. -/
structure View where
  stream : Layered
  cursor : Cursor := {}
  deriving DecidableEq, Repr

/-- An operation on a view. What it read or decrypted before a fault stays done. -/
abbrev ViewM := ExceptT Fault (StateM View)

namespace View

/-- Bytes under the mask. -/
def readBase (count : Nat) : ViewM Bytes := do
  let view ← get
  match view.stream.base with
  | .memory data => return data.slice view.cursor.position count
  | .blocks blocks =>
    let (result, after) := (Blocks.readAt view.cursor.position count).run.run blocks
    set { view with stream := { view.stream with base := .blocks after } }
    match result with
    | .ok bytes => return bytes
    | .error cause => throw (.layer cause)

/-- Removes the mask from bytes read at the cursor. -/
def unmask (view : View) (bytes : Bytes) : Bytes :=
  match view.stream.maskKey with
  | none => bytes
  | some key =>
    Cipher.mask key (view.cursor.rule.counterAt (UInt64.ofNat view.cursor.position)) bytes

/-- Reads at most `count` bytes in one step. -/
def read (count : Nat) : ViewM Bytes := do
  let view ← get
  let bytes ← readBase count
  modify fun after =>
    { after with cursor := { after.cursor with position := view.cursor.position + bytes.length } }
  return view.unmask bytes

/-- Reads until `count` bytes are there or the stream has no more. -/
def readUpTo (count : Nat) : ViewM Bytes := do
  if _wanted : 0 < count then
    let bytes ← read count
    if _progress : 0 < bytes.length then
      let more ← readUpTo (count - bytes.length)
      return bytes ++ more
    else return []
  else return []
termination_by count

def readExact (count : Nat) : ViewM Bytes := do
  let bytes ← readUpTo count
  if bytes.length < count then throw .shortRead
  return bytes

/-- Reads to the end of the stream. -/
def readAll : ViewM Bytes := do
  let view ← get
  readUpTo (view.stream.length - view.cursor.position)

/-- Moves the cursor; it may stand past the end but not before the start. -/
def seek (origin : Origin) (delta : Int) : ViewM Nat := do
  let view ← get
  let target : Int :=
    match origin with
    | .start => delta
    | .current => view.cursor.position + delta
    | .finish => view.stream.length + delta
  if 0 ≤ target ∧ target < 0x10000000000000000 then
    set { view with cursor := { view.cursor with position := target.toNat } }
    return target.toNat
  else if view.stream.blocks?.isSome then throw .blockSeekRange
  else throw .seekRange

def setRule (rule : CounterRule) : ViewM Unit :=
  modify fun view => { view with cursor := { view.cursor with rule } }

end View

end CilRecovery.Stream
