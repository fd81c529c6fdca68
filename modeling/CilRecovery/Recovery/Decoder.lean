import CilRecovery.Recovery.DecodedBody
import CilRecovery.Recovery.Password
import CilRecovery.Resolver.Basic
import CilRecovery.Virtual.Catalog

/-!
Decoding virtual instructions. The catalog says what a code stands for and how wide its operand
is. A guarded range is decrypted and decoded in its place. Decoding stops at the first code that
cannot become an instruction; each step advances within the range, so it also comes to an end.
-/
namespace CilRecovery

/-- What the code of a method is decoded with. -/
structure Decoder where
  catalog : Catalog
  resolver : Resolver
  /-- The method. -/
  token : Token
  /-- Absent where guarded ranges are not decrypted. -/
  passwords : Option PasswordStore := none

/-- How far decoding has come. -/
structure Decoding where
  reader : Reader
  body : DecodedBody := {}
  /-- The ordinal of the next guarded range. -/
  nextRange : Nat := 0

/-- A decoding operation. Of a failed one only what the resolver found stays. -/
abbrev DecodeM := StateT Decoding ResolveM

/-- A range of code. -/
structure CodeRange where
  /-- The virtual offset of the first byte. -/
  base : Nat
  length : Nat
  /-- The reader's position at the first byte. -/
  start : Nat
  deriving DecidableEq, Repr

/-- The virtual offset after the last byte. -/
def CodeRange.finish (range : CodeRange) : Nat := range.base + range.length

/-- An operand as it stands in the code; branch targets are virtual offsets. -/
inductive RawOperand where
  | ready (operand : Operand)
  | target (offset : Nat)
  | switch (offsets : List Nat)
  deriving DecidableEq, Repr

/-- What is left to do after a virtual instruction. -/
inductive Decoded where
  | complete
  /-- Decoding stops here. -/
  | stopped
  /-- A guarded range of some size follows. -/
  | guarded (size : Nat)
  deriving DecidableEq, Repr

namespace Decoder

/-- Runs a reading operation on the code. -/
def reading (operation : ReadM α) : DecodeM α := do
  let state ← get
  match operation.run.run state.reader with
  | (.ok value, reader) =>
    set { state with reader }
    return value
  | (.error e, _) => throw e

theorem reading_eq_pure {operation : ReadM α} {state : Decoding} {value : α} {reader : Reader}
    (ends : operation.run.run state.reader = (.ok value, reader)) :
    (reading operation).run state = pure (value, { state with reader }) := by
  simp only [reading, StateT.run_bind, StateT.run_get, pure_bind, ends]
  rfl

theorem reading_eq_throw {operation : ReadM α} {state : Decoding} {e : Error} {reader : Reader}
    (ends : operation.run.run state.reader = (.error e, reader)) :
    (reading operation).run state = throw e := by
  simp only [reading, StateT.run_bind, StateT.run_get, pure_bind, ends]
  rfl

/-- Runs a resolving operation. -/
def resolving (operation : ResolveM α) : DecodeM α := StateT.lift operation

def modifyBody (change : DecodedBody → DecodedBody) : DecodeM Unit :=
  modify fun state => { state with body := change state.body }

/-- The virtual offset at which the reader stands. -/
def currentOffset (range : CodeRange) : DecodeM Nat := do
  let consumed := (← get).reader.position - range.start
  if range.base + consumed < 0x100000000 then return range.base + consumed
  throw (.malformed ("Virtual offset overflow at " ++ toString consumed))

def runsPast (range : CodeRange) (offset : Nat) : Error :=
  .malformed ("Instruction at 0x" ++ Text.hex 0 offset ++ " runs past the body end 0x" ++
    Text.hex 0 range.finish)

/-- Passes over an operand. -/
def skipOperand (operand : InlineOperand) : DecodeM Unit :=
  match operand.virtualWidth? with
  | some width => reading (Reader.skip width)
  | none => do
    let count ← reading Reader.u32
    reading (Reader.skip (4 * count.toNat))

/-- An opcode that is no CIL opcode takes one word as its operand. -/
def expectWord (code : UInt16) (operand : InlineOperand) : DecodeM Unit := do
  if operand.virtualWidth? ≠ some 4 then
    throw (.malformed ("Special opcode 0x" ++ Text.hex 0 code.toNat ++ " declares operand " ++
      operand.name))

def unresolved (what : String) (position : UInt32) : Error :=
  .resolution ("No " ++ what ++ " resolves at 0x" ++ Text.hex 0 position.toNat)

/-- The result, which must be there. -/
def require (what : String) (position : UInt32) : Option α → DecodeM α
  | some value => return value
  | none => throw (unresolved what position)

def stringAt (resolver : Resolver) (position : UInt32) : DecodeM String := do
  match ← resolving (resolver.resolve position) with
  | some (.string text) => return text
  | some other =>
    throw (.resolution ("Expected a string at 0x" ++ Text.hex 0 position.toNat ++ ", found a " ++
      other.kindName))
  | none => throw (unresolved "string" position)

/-- The type or member that a token operand names. -/
def memberAt (resolver : Resolver) (position : UInt32) : DecodeM Resolved := do
  match ← resolving (resolver.resolve position) with
  | none | some (.string _) => throw (unresolved "member" position)
  | some resolved => return resolved

/-- The operand for a slot, which is an argument or a local variable by the opcode. -/
def slot (opcode : OpCode) (index : Nat) : Operand :=
  if opcode.indexesArguments then .argument index else .local index

/-- Reads an operand that refers to a record. -/
def readReference (resolver : Resolver) (opcode : OpCode) (operand : InlineOperand) :
    DecodeM Operand := do
  let position ← reading Reader.u32
  match operand with
  | .inlineString => return .string (← stringAt resolver position)
  | .inlineType =>
    let found ← resolving (resolver.resolveType position.toInt32)
    return .type (← require "type" position found)
  | .inlineField =>
    let found ← resolving (resolver.resolveField position)
    return .field (← require "field" position found)
  | .inlineMethod =>
    let found ← resolving (resolver.resolveMethod position)
    return .method (← require "method" position found)
  | .inlineTok => return .token (← memberAt resolver position)
  | _ =>
    throw (.notSupported ("Signature operand at 0x" ++ Text.hex 0 position.toNat ++ " of " ++
      opcode.mnemonic))

def readOperand (resolver : Resolver) (opcode : OpCode) (operand : InlineOperand) :
    DecodeM RawOperand := do
  match operand with
  | .inlineNone => return .ready .none
  | .inlineBrTarget | .shortInlineBrTarget => return .target (← reading Reader.u32).toNat
  | .inlineSwitch =>
    let count ← reading Reader.u32
    let targets ← reading (Reader.repeated Reader.u32 count.toNat)
    return .switch (targets.map UInt32.toNat)
  | .inlineI => return .ready (.immediate (.int32 (← reading Reader.i32)))
  | .inlineI8 => return .ready (.immediate (.int64 (← reading Reader.i64)))
  | .inlineR => return .ready (.immediate (.float64 (← reading Reader.u64)))
  | .shortInlineR => return .ready (.immediate (.float32 (← reading Reader.u32)))
  | .shortInlineI =>
    if opcode = .ldcI4S then return .ready (.immediate (.int8 (← reading Reader.i8)))
    else return .ready (.immediate (.uint8 (← reading Reader.u8)))
  | .inlineVar => return .ready (slot opcode (← reading Reader.u16).toNat)
  | .shortInlineVar => return .ready (slot opcode (← reading Reader.u8).toNat)
  | .inlineString | .inlineType | .inlineField | .inlineMethod | .inlineTok | .inlineSig =>
    return .ready (← readReference resolver opcode operand)

/-- Decodes the operand of a CIL opcode and emits the instruction. -/
def decodeCil (resolver : Resolver) (offset : Nat) (opcode : OpCode) (operand : InlineOperand) :
    DecodeM Unit := do
  let form := opcode.formFor operand
  match ← readOperand resolver form operand with
  | .ready operand => modifyBody (·.emit offset { opcode := form, operand })
  | .target target =>
    modifyBody (·.emitBranch offset { opcode := form, operand := .target 0 } [target] false)
  | .switch targets =>
    modifyBody (·.emitBranch offset { opcode := form, operand := .switch [] } targets true)

/-- Decodes the position of a packed call and emits the call. -/
def decodeCall (resolver : Resolver) (offset : Nat) : DecodeM Unit := do
  let position ← reading Reader.u32
  match ← resolving (resolver.resolveCall position) with
  | none =>
    throw (.resolution ("Call record at 0x" ++ Text.hex 0 position.toNat ++ " did not resolve"))
  | some (method, isVirtual) =>
    let opcode := if isVirtual then OpCode.callvirt else .call
    modifyBody (·.emit offset { opcode, operand := .method method })

/-- Reads the size of a guarded range. -/
def readSize : DecodeM Nat := do
  let size ← reading Reader.i32
  if size < 0 then
    throw (.malformed ("Negative guarded range length " ++ toString size.toInt))
  return size.toInt.toNat

/-- Decodes the virtual instruction at an offset, except for what a guarded range holds. -/
def decodeOne (decoder : Decoder) (range : CodeRange) (offset : Nat) : DecodeM Decoded := do
  let code ← reading Reader.u16
  match decoder.catalog.get? code.toUInt32 with
  | none =>
    let finish ← currentOffset range
    modifyBody (·.stopAt ⟨.unknownCode, offset, code.toNat, finish⟩)
    return .stopped
  | some opcode =>
    match opcode.kind with
    | .unidentified =>
      skipOperand opcode.operand
      let finish ← currentOffset range
      if range.finish < finish then throw (runsPast range finish)
      modifyBody (·.stopAt ⟨.unidentified, offset, code.toNat, finish⟩)
      return .stopped
    | .special .noEffect =>
      skipOperand opcode.operand
      modifyBody (·.skip offset)
      return .complete
    | .special .packedCall =>
      expectWord code opcode.operand
      decodeCall decoder.resolver offset
      return .complete
    | .special .chainBoundary =>
      expectWord code opcode.operand
      return .guarded (← readSize)
    | .cil cil =>
      decodeCil decoder.resolver offset cil opcode.operand
      return .complete

/-- Reads and decrypts the next guarded range. -/
def openRange (decoder : Decoder) (size : Nat) : DecodeM Bytes := do
  let ordinal := (← get).nextRange
  modify fun state => { state with nextRange := ordinal + 1 }
  match decoder.passwords with
  | none =>
    throw (.crypto ("Method " ++ decoder.token.render ++
      " has a guarded range but the chain cipher is disabled"))
  | some passwords =>
    match passwords.get? decoder.token ordinal with
    | none =>
      throw (.crypto ("No password for guarded range " ++ toString ordinal ++ " of method " ++
        decoder.token.render))
    | some password =>
      let cipher ← reading (Reader.bytes size)
      return (Cipher.Chain.Key.forRange password decoder.token ordinal).decrypt cipher

/-- Lets an operation read other bytes, and then goes back to the code. -/
def within (plain : Bytes) (operation : DecodeM α) : DecodeM α := do
  let outer := (← get).reader
  modify fun state =>
    { state with reader := { Reader.ofBytes plain outer.profiles with active := .instruction } }
  let result ← operation
  modify fun state => { state with reader := outer }
  return result

def exceeds (range : CodeRange) (base size : Nat) : Error :=
  .malformed ("Guarded range of " ++ toString size ++ " bytes at 0x" ++ Text.hex 0 base ++
    " exceeds the " ++ toString (range.finish - base) ++ " bytes left")

/-- Decodes a range from an offset on and says whether decoding stopped early. -/
def decodeFrom (decoder : Decoder) (range : CodeRange) (offset : Nat) : DecodeM Bool := do
  if _inside : offset < range.finish then
    let stopped ← (do
      match ← decoder.decodeOne range offset with
      | .complete => return false
      | .stopped => return true
      | .guarded size =>
        let base ← currentOffset range
        if _fits : offset < base ∧ size ≤ range.finish - base then
          let plain ← decoder.openRange size
          modifyBody (·.skip offset)
          within plain (decoder.decodeFrom ⟨base, size, 0⟩ base)
        else throw (exceeds range base size) : DecodeM Bool)
    if stopped then return true
    let next ← currentOffset range
    if _advances : offset < next ∧ next ≤ range.finish then decoder.decodeFrom range next
    else throw (runsPast range next)
  else return false
termination_by range.finish - offset
decreasing_by
  · have inner : CodeRange.finish ⟨base, size, 0⟩ = base + size := rfl
    omega
  · omega

/-- Decodes the code at the reader's position, and gives back the reader after it. -/
def decode (decoder : Decoder) (reader : Reader) (length : Nat) :
    ResolveM (DecodedBody × Reader) := do
  let start : Decoding :=
    { reader := { reader with active := .instruction }, body := { length } }
  let (_, state) ← (decoder.decodeFrom ⟨0, length, reader.position⟩ 0).run start
  return (state.body.settle, state.reader)

end Decoder

end CilRecovery
