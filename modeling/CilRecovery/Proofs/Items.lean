import CilRecovery.Proofs.Decoding
import CilRecovery.Proofs.RoundTrip

/-!
Virtual instructions in two steps. What stands in the code is read first, and only then is anything
looked up, decrypted or written; so how far an instruction reaches is a matter of reading alone.
-/
namespace CilRecovery

/-- Whether data breaks its own format. -/
def Error.isMalformed : Error → Bool
  | malformed _ => true
  | _ => false

/-- A virtual instruction as it stands in the code. -/
inductive RawItem where
  | unknown (code : UInt16)
  | unidentified (code : UInt16)
  | noEffect
  /-- An opcode that is no CIL opcode, with an operand that is no word. -/
  | refused (code : UInt16) (operand : InlineOperand)
  | packedCall (position : UInt32)
  | chainBoundary (size : Int32)
  | plain (opcode : OpCode) (operand : RawOperand)
  /-- A CIL opcode whose operand is to be looked up. -/
  | reference (opcode : OpCode) (operand : InlineOperand) (position : UInt32)
  deriving DecidableEq, Repr

namespace RawItem

/-- Whether the instruction can be done with at once. -/
def completes : RawItem → Bool
  | noEffect | packedCall _ | plain _ _ | reference _ _ _ => true
  | _ => false

/-- Whether the operand is a position that is looked up. -/
def isLookedUp : RawItem → Bool
  | packedCall _ | reference _ _ _ => true
  | _ => false

end RawItem

namespace VirtualOpcode

/-- Whether an opcode asks for an action that takes one word. -/
def takesWord (opcode : VirtualOpcode) : Bool :=
  match opcode.kind with
  | .special .packedCall | .special .chainBoundary => true
  | _ => false

/-- Whether such an opcode has another operand. -/
def isRefused (opcode : VirtualOpcode) : Bool :=
  opcode.takesWord && opcode.operand.virtualWidth? != some 4

/-- Whether the operand of an opcode is passed over and not read. -/
def isSkipped (opcode : VirtualOpcode) : Bool :=
  match opcode.kind with
  | .unidentified | .special .noEffect => true
  | _ => false

theorem virtualWidth?_of_takesWord {opcode : VirtualOpcode} (takes : opcode.takesWord = true)
    (taken : opcode.isRefused = false) : opcode.operand.virtualWidth? = some 4 := by
  simpa [isRefused, takes] using taken

end VirtualOpcode

/-- What says how far a virtual instruction reaches. -/
structure ItemHead where
  code : UInt16
  /-- Absent if the code is unknown. -/
  opcode : Option VirtualOpcode
  /-- The number of targets of a switch. -/
  targets : Nat := 0
  deriving DecidableEq, Repr

namespace ItemHead

/-- Whether the number of targets is part of the instruction. -/
def counts (head : ItemHead) : Bool :=
  head.opcode.any fun opcode => opcode.operand.virtualWidth?.isNone && !opcode.isRefused

/-- How many bytes the code and the number of targets take. -/
def width (head : ItemHead) : Nat := if head.counts then 6 else 2

/-- How many bytes follow them. A refused operand is not read. -/
def left (head : ItemHead) : Nat :=
  match head.opcode with
  | none => 0
  | some opcode =>
    if opcode.isRefused then 0 else opcode.operand.virtualWidth?.getD (4 * head.targets)

/-- How many bytes the instruction takes. -/
def size (head : ItemHead) : Nat := head.width + head.left

theorem counts_some (code : UInt16) (opcode : VirtualOpcode) (targets : Nat) :
    counts ⟨code, some opcode, targets⟩ =
      (opcode.operand.virtualWidth?.isNone && !opcode.isRefused) := rfl

theorem left_lt {head : ItemHead} (small : head.targets < 0x100000000) :
    head.left < 0x8000000000000000 := by
  rw [left]
  split
  · decide
  · rename_i opcode _
    split
    · decide
    · cases wide : opcode.operand.virtualWidth? with
      | none =>
        rw [Option.getD_none]
        omega
      | some bytes =>
        have narrow : bytes ≤ 8 := by
          cases is : opcode.operand <;> rw [is] at wide <;> cases wide <;> decide
        rw [Option.getD_some]
        omega

end ItemHead

/-- An instruction that goes with a head. -/
def RawItem.Of (head : ItemHead) (item : RawItem) : Prop :=
  match head.opcode with
  | none => item = .unknown head.code
  | some opcode =>
    if opcode.isRefused then item = .refused head.code opcode.operand
    else
      match opcode.kind with
      | .unidentified => item = .unidentified head.code
      | .special .noEffect => item = .noEffect
      | .special .packedCall => ∃ position, item = .packedCall position
      | .special .chainBoundary => ∃ size, item = .chainBoundary size
      | .cil cil =>
        if opcode.operand.isReference then
          ∃ position, item = .reference (cil.formFor opcode.operand) opcode.operand position
        else ∃ operand, item = .plain (cil.formFor opcode.operand) operand

namespace Reader

/-- Reads the number of targets, if it is part of the instruction. -/
def itemHeadFor (catalog : Catalog) (code : UInt16) : ReadM ItemHead :=
  let head : ItemHead := { code, opcode := catalog.get? code.toUInt32 }
  if head.counts then return { head with targets := (← u32).toNat } else return head

/-- Reads how far a virtual instruction reaches. -/
def itemHead (catalog : Catalog) : ReadM ItemHead := do
  let code ← u16
  itemHeadFor catalog code

/-- Reads the operand of a CIL opcode. -/
def cilItem (opcode : OpCode) (operand : InlineOperand) (targets : Nat) : ReadM RawItem :=
  match operand with
  | .inlineNone => return .plain opcode (.ready .none)
  | .inlineBrTarget | .shortInlineBrTarget => return .plain opcode (.target (← u32).toNat)
  | .inlineSwitch =>
    return .plain opcode (.switch ((← repeated u32 targets).map UInt32.toNat))
  | .inlineI => return .plain opcode (.ready (.immediate (.int32 (← i32))))
  | .inlineI8 => return .plain opcode (.ready (.immediate (.int64 (← i64))))
  | .inlineR => return .plain opcode (.ready (.immediate (.float64 (← u64))))
  | .shortInlineR => return .plain opcode (.ready (.immediate (.float32 (← u32))))
  | .shortInlineI =>
    if opcode = .ldcI4S then return .plain opcode (.ready (.immediate (.int8 (← i8))))
    else return .plain opcode (.ready (.immediate (.uint8 (← u8))))
  | .inlineVar => return .plain opcode (.ready (Decoder.slot opcode (← u16).toNat))
  | .shortInlineVar => return .plain opcode (.ready (Decoder.slot opcode (← u8).toNat))
  | .inlineString | .inlineType | .inlineField | .inlineMethod | .inlineTok | .inlineSig =>
    return .reference opcode operand (← u32)

/-- Reads the rest of a virtual instruction. Of some opcodes the operand is only passed over. -/
def itemRest (head : ItemHead) : ReadM RawItem :=
  match head.opcode with
  | none => return .unknown head.code
  | some opcode =>
    if opcode.isRefused then return .refused head.code opcode.operand
    else
      match opcode.kind with
      | .unidentified => do
        skip head.left
        return .unidentified head.code
      | .special .noEffect => do
        skip head.left
        return .noEffect
      | .special .packedCall => return .packedCall (← u32)
      | .special .chainBoundary => return .chainBoundary (← i32)
      | .cil cil => cilItem (cil.formFor opcode.operand) opcode.operand head.targets

/-- Reads a virtual instruction. -/
def item (catalog : Catalog) : ReadM RawItem := do
  let head ← itemHead catalog
  itemRest head

end Reader

namespace Decoder

/-- Looks an operand up. -/
def referenceAt (resolver : Resolver) (opcode : OpCode) (operand : InlineOperand)
    (position : UInt32) : DecodeM Operand :=
  match operand with
  | .inlineString => return .string (← stringAt resolver position)
  | .inlineType => do
    let found ← resolving (resolver.resolveType position.toInt32)
    return .type (← require "type" position found)
  | .inlineField => do
    let found ← resolving (resolver.resolveField position)
    return .field (← require "field" position found)
  | .inlineMethod => do
    let found ← resolving (resolver.resolveMethod position)
    return .method (← require "method" position found)
  | .inlineTok => return .token (← memberAt resolver position)
  | _ =>
    throw (.notSupported ("Signature operand at 0x" ++ Text.hex 0 position.toNat ++ " of " ++
      opcode.mnemonic))

/-- Writes an instruction whose operand is known. -/
def emitRaw (offset : Nat) (opcode : OpCode) (operand : RawOperand) : DecodeM Unit :=
  modifyBody fun body =>
    match operand with
    | .ready operand => body.emit offset { opcode, operand }
    | .target target => body.emitBranch offset { opcode, operand := .target 0 } [target] false
    | .switch targets => body.emitBranch offset { opcode, operand := .switch [] } targets true

/-- Does what a virtual instruction asks for. -/
def act (decoder : Decoder) (range : CodeRange) (offset : Nat) : RawItem → DecodeM Decoded
  | .unknown code => do
    let finish ← currentOffset range
    modifyBody (·.stopAt ⟨.unknownCode, offset, code.toNat, finish⟩)
    return .stopped
  | .unidentified code => do
    let finish ← currentOffset range
    if range.finish < finish then throw (runsPast range finish)
    modifyBody (·.stopAt ⟨.unidentified, offset, code.toNat, finish⟩)
    return .stopped
  | .noEffect => do
    modifyBody (·.skip offset)
    return .complete
  | .refused code operand =>
    throw (.malformed ("Special opcode 0x" ++ Text.hex 0 code.toNat ++ " declares operand " ++
      operand.name))
  | .packedCall position => do
    match ← resolving (decoder.resolver.resolveCall position) with
    | none =>
      throw (.resolution ("Call record at 0x" ++ Text.hex 0 position.toNat ++ " did not resolve"))
    | some (method, isVirtual) =>
      let opcode := if isVirtual then OpCode.callvirt else .call
      modifyBody (·.emit offset { opcode, operand := .method method })
      return .complete
  | .chainBoundary size => do
    if size < 0 then
      throw (.malformed ("Negative guarded range length " ++ toString size.toInt))
    return .guarded size.toInt.toNat
  | .plain opcode operand => do
    emitRaw offset opcode operand
    return .complete
  | .reference opcode operand position => do
    let operand ← referenceAt decoder.resolver opcode operand position
    emitRaw offset opcode (.ready operand)
    return .complete

theorem reading_pure (value : α) : reading (pure value) = (pure value : DecodeM α) := rfl

theorem reading_bind (first : ReadM α) (next : α → ReadM β) :
    reading (first >>= next) =
      (reading first >>= fun value => reading (next value) : DecodeM β) := by
  funext state
  change (reading (first >>= next)).run state =
    (reading first >>= fun value => reading (next value)).run state
  rw [StateT.run_bind]
  cases ends : first.run.run state.reader with
  | mk result reader =>
    cases result with
    | error e =>
      rw [reading_eq_throw ends, reading_eq_throw (run_bind_error ends)]
      rfl
    | ok value =>
      rw [reading_eq_pure ends, pure_bind]
      cases ends' : (next value).run.run reader with
      | mk result' reader' =>
        have whole : (first >>= next).run.run state.reader = (result', reader') := by
          rw [CilRecovery.run_bind_ok ends, ends']
        cases result' with
        | error e => rw [reading_eq_throw whole, reading_eq_throw ends']
        | ok value' => rw [reading_eq_pure whole, reading_eq_pure ends']

/-- The operand of a CIL opcode is read first and then looked up, if need be. -/
theorem decodeCil_eq (decoder : Decoder) (range : CodeRange) (offset : Nat) (cil : OpCode)
    (operand : InlineOperand) :
    (decodeCil decoder.resolver offset cil operand >>= fun _ => pure .complete) =
      reading (if operand.virtualWidth?.isNone then do
          let targets ← Reader.u32
          Reader.cilItem (cil.formFor operand) operand targets.toNat
        else Reader.cilItem (cil.formFor operand) operand 0) >>= decoder.act range offset := by
  simp only [decodeCil]
  generalize cil.formFor operand = form
  cases operand <;>
    simp only [readOperand, readReference, InlineOperand.virtualWidth?, InlineOperand.size?,
      Option.isNone_none, Option.isNone_some, Bool.false_eq_true, if_true, if_false,
      Reader.cilItem, reading_bind, reading_pure, bind_assoc, pure_bind, act, emitRaw, referenceAt]
  case shortInlineI =>
    split <;> simp only [reading_bind, reading_pure, bind_assoc, pure_bind, act, emitRaw]

/-- An operand that is passed over is read as the rest of its instruction. -/
theorem skipOperand_eq (code : UInt16) {opcode : VirtualOpcode} (taken : opcode.isRefused = false) :
    skipOperand opcode.operand =
      reading (if opcode.operand.virtualWidth?.isNone then do
          let targets ← Reader.u32
          Reader.skip (ItemHead.left ⟨code, opcode, targets.toNat⟩)
        else Reader.skip (ItemHead.left ⟨code, opcode, 0⟩)) := by
  simp only [skipOperand, ItemHead.left, taken, Bool.false_eq_true, if_false]
  cases opcode.operand.virtualWidth? with
  | none => simp only [Option.isNone_none, if_true, Option.getD_none, reading_bind]
  | some width => simp only [Option.isNone_some, Bool.false_eq_true, if_false, Option.getD_some]

/-- A virtual instruction is read first and then acted upon. -/
theorem decodeOne_eq (decoder : Decoder) (range : CodeRange) (offset : Nat) :
    decoder.decodeOne range offset =
      reading (Reader.item decoder.catalog) >>= decoder.act range offset := by
  simp only [decodeOne, Reader.item, Reader.itemHead, Reader.itemHeadFor, bind_assoc, reading_bind]
  refine congrArg (reading Reader.u16 >>= ·) (funext fun code => ?_)
  cases decoder.catalog.get? code.toUInt32 with
  | none => rfl
  | some opcode =>
    dsimp only
    rw [ItemHead.counts_some]
    cases taken : opcode.isRefused with
    | true =>
      obtain ⟨takes, width⟩ := Bool.and_eq_true_iff.mp taken
      have width : opcode.operand.virtualWidth? ≠ some 4 := bne_iff_ne.mp width
      simp only [Reader.itemRest, taken, Bool.not_true, Bool.and_false, Bool.false_eq_true,
        if_false, if_true, reading_pure, pure_bind, act, expectWord, width, ne_eq,
        not_false_eq_true]
      rw [VirtualOpcode.takesWord] at takes
      split at takes
      · rename_i kind
        rw [kind]
        rfl
      · rename_i kind
        rw [kind]
        rfl
      · cases takes
    | false =>
      simp only [Bool.not_false, Bool.and_true]
      cases kind : opcode.kind with
      | unidentified =>
        rw [skipOperand_eq code taken]
        cases opcode.operand.virtualWidth?.isNone <;>
          simp only [Reader.itemRest, taken, Bool.false_eq_true, if_false, if_true, kind,
            reading_bind, reading_pure, bind_assoc, pure_bind, act]
      | cil cil =>
        refine (decodeCil_eq decoder range offset cil opcode.operand).trans ?_
        cases opcode.operand.virtualWidth?.isNone <;>
          simp only [Reader.itemRest, taken, Bool.false_eq_true, if_false, if_true, kind,
            reading_bind, reading_pure, bind_assoc, pure_bind]
      | special role =>
        cases role with
        | noEffect =>
          rw [skipOperand_eq code taken]
          cases opcode.operand.virtualWidth?.isNone <;>
            simp only [Reader.itemRest, taken, Bool.false_eq_true, if_false, if_true, kind,
              reading_bind, reading_pure, bind_assoc, pure_bind, act]
        | packedCall =>
          have width := VirtualOpcode.virtualWidth?_of_takesWord
            (by rw [VirtualOpcode.takesWord, kind]) taken
          simp only [expectWord, decodeCall, width, ne_eq, not_true_eq_false, if_false,
            Option.isNone_some, Bool.false_eq_true, Reader.itemRest, taken, kind, reading_bind,
            reading_pure, bind_assoc, pure_bind, act]
          refine congrArg (reading Reader.u32 >>= ·) (funext fun position => ?_)
          refine congrArg (resolving _ >>= ·) (funext fun found => ?_)
          cases found with
          | none => rfl
          | some found => rfl
        | chainBoundary =>
          have width := VirtualOpcode.virtualWidth?_of_takesWord
            (by rw [VirtualOpcode.takesWord, kind]) taken
          simp only [expectWord, readSize, width, ne_eq, not_true_eq_false, if_false,
            Option.isNone_some, Bool.false_eq_true, Reader.itemRest, taken, kind, reading_bind,
            reading_pure, bind_assoc, pure_bind, act]
          refine congrArg (reading Reader.i32 >>= ·) (funext fun size => ?_)
          split <;> rfl

/-- A sequence goes on with the value and the state of its first step, or ends with its error. -/
theorem run_bind_eq (first : DecodeM α) (next : α → DecodeM β) (state : Decoding)
    (session : Session) :
    ((first >>= next).run state).run.run session =
      match (first.run state).run.run session with
      | (.ok (value, between), after) => ((next value).run between).run.run after
      | (.error e, after) => (.error e, after) := by
  rw [StateT.run_bind, run_bind]
  rcases (first.run state).run.run session with ⟨_ | _, _⟩ <;> rfl

theorem currentOffset_run_eq (range : CodeRange) (state : Decoding) (session : Session) :
    ((currentOffset range).run state).run.run session =
      if range.base + (state.reader.position - range.start) < 0x100000000 then
        (.ok (range.base + (state.reader.position - range.start), state), session)
      else (.error (.malformed ("Virtual offset overflow at " ++
        toString (state.reader.position - range.start))), session) := by
  change ((if range.base + (state.reader.position - range.start) < 0x100000000 then
      pure (range.base + (state.reader.position - range.start))
    else throw (.malformed ("Virtual offset overflow at " ++
      toString (state.reader.position - range.start))) : DecodeM Nat).run state).run.run session = _
  split <;> rfl

theorem within_run_eq (plain : Bytes) (operation : DecodeM α) (state : Decoding)
    (session : Session) :
    ((within plain operation).run state).run.run session =
      match (operation.run { state with
        reader := { Reader.ofBytes plain state.reader.profiles with active := .instruction }
        }).run.run session with
      | (.ok (value, between), after) =>
        (.ok (value, { between with reader := state.reader }), after)
      | (.error e, after) => (.error e, after) := by
  change ((operation >>= fun result => do
    modify fun inner => { inner with reader := state.reader }
    return result : DecodeM α).run _).run.run session = _
  rw [run_bind_eq]
  rfl

/-- What has been done about an instruction at an offset. -/
def Settled (range : CodeRange) (offset : Nat) (before : Decoding) (item : RawItem)
    (after : Decoding) : Decoded → Prop
  | .complete => item.completes = true ∧ after.body.stop = before.body.stop
  | .guarded _ => (∃ size, item = .chainBoundary size) ∧ after.body.stop = before.body.stop
  | .stopped => ∃ stop, after.body.stop = some stop ∧ stop.offset = offset ∧
    stop.finish = range.base + (before.reader.position - range.start) ∧
    ((∃ code, item = .unknown code ∧ stop.code = code.toNat) ∧ stop.reason = .unknownCode ∨
      (∃ code, item = .unidentified code ∧ stop.code = code.toNat) ∧
        stop.reason = .unidentified ∧ stop.finish ≤ range.finish)

/-- An operation that of the reader asks only for its position, and leaves it and the number of
guarded ranges alone. -/
def Blind (operation : DecodeM α) : Prop :=
  ∀ state session, Reaches (operation.run state) session
    (fun result last => result.2.reader = state.reader ∧ result.2.nextRange = state.nextRange ∧
      ∀ reader : Reader, reader.position = state.reader.position →
        (operation.run { state with reader }).run.run session =
          (.ok (result.1, { result.2 with reader }), last))
    (fun e last => ∀ reader : Reader, reader.position = state.reader.position →
      (operation.run { state with reader }).run.run session = (.error e, last))

namespace Blind

theorem pure (value : α) : Blind (Pure.pure value) := fun _ _ => ⟨rfl, rfl, fun _ _ => rfl⟩

theorem throw (e : Error) : Blind (MonadExcept.throw e : DecodeM α) := fun _ _ =>
  ⟨fun _ _ => rfl⟩

theorem of_ok {operation : DecodeM α} (blind : Blind operation) {state after : Decoding}
    {session last : Session} {value : α}
    (ends : (operation.run state).run.run session = (.ok (value, after), last)) :
    after.reader = state.reader ∧ after.nextRange = state.nextRange ∧
      ∀ reader : Reader, reader.position = state.reader.position →
        (operation.run { state with reader }).run.run session =
          (.ok (value, { after with reader }), last) := by
  have reached := (blind state session).ends
  rwa [ends] at reached

theorem modifyBody (change : DecodedBody → DecodedBody) : Blind (modifyBody change) :=
  fun _ _ => ⟨rfl, rfl, fun _ _ => rfl⟩

theorem currentOffset (range : CodeRange) : Blind (currentOffset range) := by
  intro state session
  constructor
  rw [currentOffset_run_eq]
  by_cases short : range.base + (state.reader.position - range.start) < 0x100000000
  · rw [if_pos short]
    refine ⟨rfl, rfl, fun reader same => ?_⟩
    rw [currentOffset_run_eq]
    dsimp only
    rw [same, if_pos short]
  · rw [if_neg short]
    intro reader same
    rw [currentOffset_run_eq]
    dsimp only
    rw [same, if_neg short]

theorem resolving (operation : ResolveM α) : Blind (resolving operation) := by
  intro state session
  have runs (state : Decoding) : ((Decoder.resolving operation).run state).run.run session =
      match operation.run.run session with
      | (.ok value, last) => (.ok (value, state), last)
      | (.error e, last) => (.error e, last) := by
    change (operation >>= fun value => Pure.pure (value, state)).run.run session = _
    rw [run_bind]
    rcases operation.run.run session with ⟨_ | _, _⟩ <;> rfl
  constructor
  simp only [runs]
  generalize operation.run.run session = outcome
  obtain ⟨result, last⟩ := outcome
  cases result with
  | error e => exact fun _ _ => rfl
  | ok value => exact ⟨rfl, rfl, fun _ _ => rfl⟩

theorem bind {first : DecodeM α} {next : α → DecodeM β} (now : Blind first)
    (later : ∀ value, Blind (next value)) : Blind (first >>= next) := by
  intro state session
  have one := (now state session).ends
  constructor
  simp only [run_bind_eq]
  generalize (first.run state).run.run session = outcome at one
  obtain ⟨result, last⟩ := outcome
  cases result with
  | error e =>
    intro reader same
    rw [one reader same]
  | ok pair =>
    obtain ⟨value, between⟩ := pair
    obtain ⟨kept, counted, same⟩ := one
    dsimp only at kept counted same ⊢
    have two := (later value between last).ends
    generalize ((next value).run between).run.run last = outcome at two
    obtain ⟨result, last'⟩ := outcome
    cases result with
    | error e =>
      intro reader there
      rw [same reader there]
      exact two reader (by rw [there, kept])
    | ok pair =>
      obtain ⟨kept', counted', same'⟩ := two
      refine ⟨kept'.trans kept, counted'.trans counted, fun reader there => ?_⟩
      rw [same reader there]
      exact same' reader (by rw [there, kept])

end Blind

theorem blind_require (what : String) (position : UInt32) (found : Option α) :
    Blind (require what position found) := by
  cases found with
  | none => exact .throw _
  | some value => exact .pure value

theorem blind_referenceAt (resolver : Resolver) (opcode : OpCode) (operand : InlineOperand)
    (position : UInt32) : Blind (referenceAt resolver opcode operand position) := by
  cases operand with
  | inlineString =>
    refine .bind (.bind (.resolving _) fun found => ?_) fun _ => .pure _
    split
    · exact .pure _
    · exact .throw _
    · exact .throw _
  | inlineTok =>
    refine .bind (.bind (.resolving _) fun found => ?_) fun _ => .pure _
    split
    · exact .throw _
    · exact .throw _
    · exact .pure _
  | inlineType | inlineField | inlineMethod =>
    exact .bind (.resolving _) fun found => .bind (blind_require _ position found) fun _ => .pure _
  | _ => exact .throw _

/-- Acting upon an instruction reads nothing. -/
theorem blind_act (decoder : Decoder) (range : CodeRange) (offset : Nat) (item : RawItem) :
    Blind (decoder.act range offset item) := by
  cases item with
  | unknown code =>
    exact .bind (.currentOffset range) fun _ => .bind (.modifyBody _) fun _ => .pure _
  | unidentified code =>
    refine .bind (.currentOffset range) fun finish => ?_
    dsimp only
    split
    · exact .bind (.throw _) fun _ => .bind (.modifyBody _) fun _ => .pure _
    · exact .bind (.modifyBody _) fun _ => .pure _
  | noEffect => exact .bind (.modifyBody _) fun _ => .pure _
  | refused code operand => exact .throw _
  | packedCall position =>
    refine .bind (.resolving _) fun found => ?_
    split
    · exact .throw _
    · exact .bind (.modifyBody _) fun _ => .pure _
  | chainBoundary size =>
    rw [act]
    split
    · exact .bind (.throw _) fun _ => .pure _
    · exact .pure _
  | plain opcode operand => exact .bind (.modifyBody _) fun _ => .pure _
  | reference opcode operand position =>
    exact .bind (blind_referenceAt decoder.resolver opcode operand position) fun _ =>
      .bind (.modifyBody _) fun _ => .pure _

theorem emitRaw_ensures (offset : Nat) (opcode : OpCode) (operand : RawOperand)
    (state : Decoding) :
    Ensures (emitRaw offset opcode operand) state fun _ after =>
      after.body.stop = state.body.stop := by
  refine .modifyBody ?_
  cases operand <;> rfl

theorem keeps_referenceAt (resolver : Resolver) (opcode : OpCode) (operand : InlineOperand)
    (position : UInt32) : Keeps (referenceAt resolver opcode operand position) := by
  cases operand with
  | inlineString => exact .bind (keeps_stringAt resolver position) fun _ => .pure _
  | inlineTok => exact .bind (keeps_memberAt resolver position) fun _ => .pure _
  | inlineType | inlineField | inlineMethod =>
    exact .bind .resolving fun found => .bind (keeps_require _ position found) fun _ => .pure _
  | _ => exact fun _ => .throw

theorem act_ensures (decoder : Decoder) (range : CodeRange) (offset : Nat) (item : RawItem)
    (state : Decoding) :
    Ensures (decoder.act range offset item) state fun result after =>
      Settled range offset state item after result := by
  cases item with
  | unknown code =>
    refine .currentOffset_bind fun finish here => .modifyBody_bind (.pure ?_)
    exact ⟨_, rfl, rfl, here, .inl ⟨⟨code, rfl, rfl⟩, rfl⟩⟩
  | unidentified code =>
    refine .currentOffset_bind fun finish here => ?_
    dsimp only
    split
    · exact .bind .throw
    · rename_i inside
      refine .modifyBody_bind (.pure ?_)
      exact ⟨_, rfl, rfl, here, .inr ⟨⟨code, rfl, rfl⟩, rfl, Nat.not_lt.mp inside⟩⟩
  | noEffect => exact .modifyBody_bind (.pure ⟨rfl, rfl⟩)
  | refused code operand => exact .throw
  | packedCall position =>
    refine .bind (.resolving fun found => ?_)
    split
    · exact .throw
    · exact .modifyBody_bind (.pure ⟨rfl, rfl⟩)
  | chainBoundary size =>
    rw [act]
    split
    · exact .bind .throw
    · exact .pure ⟨⟨size, rfl⟩, rfl⟩
  | plain opcode operand =>
    exact .bind <| (emitRaw_ensures offset opcode operand state).mono fun _ _ same =>
      .pure ⟨rfl, same⟩
  | reference opcode operand position =>
    refine .bind <| (keeps_referenceAt decoder.resolver opcode operand position state).mono ?_
    intro value between kept
    refine .bind <| (emitRaw_ensures offset opcode (.ready value) between).mono fun _ _ same =>
      .pure ⟨rfl, ?_⟩
    rw [same, kept]

/-- Unless something is looked up, acting upon an instruction fails only if the code is
malformed. -/
theorem isMalformed_of_act {decoder : Decoder} {range : CodeRange} {offset : Nat} {item : RawItem}
    {state : Decoding} {session last : Session} {e : Error} (own : item.isLookedUp = false)
    (fails : ((decoder.act range offset item).run state).run.run session = (.error e, last)) :
    e.isMalformed = true := by
  cases item with
  | unknown code =>
    rw [act, run_bind_eq, currentOffset_run_eq] at fails
    by_cases short : range.base + (state.reader.position - range.start) < 0x100000000
    · rw [if_pos short] at fails
      cases fails
    · rw [if_neg short] at fails
      cases fails
      rfl
  | unidentified code =>
    rw [act, run_bind_eq, currentOffset_run_eq] at fails
    by_cases short : range.base + (state.reader.position - range.start) < 0x100000000
    · rw [if_pos short] at fails
      dsimp only at fails
      split at fails
      · cases fails
        rfl
      · cases fails
    · rw [if_neg short] at fails
      cases fails
      rfl
  | refused code operand =>
    cases fails
    rfl
  | chainBoundary size =>
    rw [act] at fails
    split at fails
    · cases fails
      rfl
    · cases fails
  | noEffect | plain opcode operand => cases fails
  | packedCall position | reference opcode operand position => cases own

end Decoder

end CilRecovery
