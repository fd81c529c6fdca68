import CilRecovery.Recovery.Decoder
import CilRecovery.Proofs.Faults

/-!
Resolving operations seen through their lookups. Two operations mirror each other if they differ
only in how positions are looked up, so what all lookups do to a session, the operations do too.
-/
namespace CilRecovery

namespace Resolver

/-- Two operations of one shape. Each looks positions up in its own way, to some depth, and fails
with ordinary errors only. -/
inductive Mirrors (first second : Nat → Lookup) : {α : Type} → ResolveM α → ResolveM α → Prop where
  | pure {α : Type} (value : α) : Mirrors first second (Pure.pure value) (Pure.pure value)
  | throw {α : Type} {e : Error} (is : e.Ordinary) :
    Mirrors first second (MonadExcept.throw e : ResolveM α) (MonadExcept.throw e)
  | look (left : Nat) (position : Int32) :
    Mirrors first second (first left position) (second left position)
  | bind {α β : Type} {a b : ResolveM α} {f g : α → ResolveM β} (now : Mirrors first second a b)
    (later : ∀ value, Mirrors first second (f value) (g value)) :
    Mirrors first second (a >>= f) (b >>= g)

/-- An operation that touches its session through lookups only. -/
abbrev Asks (resolver : Resolver) (operation : ResolveM α) : Prop :=
  Mirrors resolver.resolveWithin resolver.resolveWithin operation operation

namespace Mirrors

variable {first second : Nat → Lookup}

theorem symm {a b : ResolveM α} (mirrors : Mirrors first second a b) : Mirrors second first b a := by
  induction mirrors with
  | pure value => exact .pure value
  | throw is => exact .throw is
  | look left position => exact .look left position
  | bind _ _ now later => exact .bind now later

/-- What every lookup does, an operation does. -/
theorem always {change : Session → Session → Prop} [IsPreorder Session change]
    {fault : Error → Prop} (ordinary : ∀ e : Error, e.Ordinary → fault e)
    (looks : ∀ left position, Always change fault (first left position)) {a b : ResolveM α}
    (mirrors : Mirrors first second a b) : Always change fault a := by
  induction mirrors with
  | pure value => exact .pure value
  | throw is => exact .throw (ordinary _ is)
  | look left position => exact looks left position
  | bind _ _ now later => exact .bind now later

theorem lift {result : Except Error α} (fails : OnlyFails Error.Ordinary result) :
    Mirrors first second (Resolver.lift result) (Resolver.lift result) := by
  cases result with
  | ok value => exact .pure value
  | error e => exact .throw (fails e rfl)

theorem map {a b : ResolveM α} (mirrors : Mirrors first second a b) (f : α → β) :
    Mirrors first second (a >>= fun value => Pure.pure (f value))
      (b >>= fun value => Pure.pure (f value)) :=
  .bind mirrors fun _ => .pure _

theorem mapM {f g : α → ResolveM β} {list : List α}
    (each : ∀ a ∈ list, Mirrors first second (f a) (g a)) :
    Mirrors first second (list.mapM f) (list.mapM g) := by
  induction list with
  | nil => exact .pure []
  | cons a rest ih =>
    rw [List.mapM_cons, List.mapM_cons]
    refine .bind (each a (by simp)) fun b => ?_
    exact .map (ih fun c member => each c (by simp [member])) _

variable (left : Nat)

theorem typeAt (position : Int32) :
    Mirrors first second (typeAt (first left) position) (typeAt (second left) position) := by
  refine .bind (.look left position) fun found => ?_
  split <;> exact .pure _

theorem methodAt (position : Int32) :
    Mirrors first second (methodAt (first left) position) (methodAt (second left) position) := by
  refine .bind (.look left position) fun found => ?_
  split <;> exact .pure _

theorem typesAt (positions : List Int32) :
    Mirrors first second (typesAt (first left) positions) (typesAt (second left) positions) := by
  induction positions with
  | nil => exact .pure _
  | cons position rest ih =>
    refine .bind (.typeAt left position) fun found => ?_
    split
    · exact .pure _
    · exact .map ih _

theorem typeDemand (record : TypeRecord) :
    Mirrors first second (typeDemand (first left) record) (typeDemand (second left) record) := by
  rw [Resolver.typeDemand, Resolver.typeDemand]
  split
  · exact .pure _
  · have parsed : OnlyFails Error.Ordinary (TypeName.parse record.name.toList) :=
      fun e fails => (TypeName.parse_onlyFails _ e fails).ordinary
    exact .bind (.lift parsed) fun name => .map (.typesAt left record.args) _

theorem methodDemand (record : MethodRecord) :
    Mirrors first second (methodDemand (first left) record)
      (methodDemand (second left) record) := by
  refine .bind (.typeAt left record.declaring) fun declaring => ?_
  split
  · exact .pure _
  · refine .bind (.typeAt left record.ret) fun ret => ?_
    split
    · exact .pure _
    · refine .bind (.typesAt left record.params) fun params => ?_
      split
      · exact .pure _
      · exact .map (.typesAt left record.args) _

theorem packedCall (record : CallRecord) :
    Mirrors first second (packedCall (first left) record) (packedCall (second left) record) := by
  refine .bind (.methodAt left record.method) fun method => ?_
  split
  · exact .pure _
  · split
    · exact .pure _
    · refine .bind (.typesAt left record.args) fun args => ?_
      split
      · exact .pure _
      · split <;> exact .pure _

theorem demand (record : OperandRecord) :
    Mirrors first second (demand (first left) record) (demand (second left) record) := by
  cases record with
  | token token => exact .pure _
  | userString text => exact .pure _
  | type record => exact .typeDemand left record
  | field record => exact .map (.typeAt left record.declaring) _
  | method record => exact .methodDemand left record
  | packedCall record => exact .map (.packedCall left record) _

end Mirrors

theorem readRecord_onlyFails (resolver : Resolver) (position : Nat) :
    OnlyFails Error.Ordinary (resolver.readRecord position) := by
  have read : Reader.Tame (do
      Reader.seek position
      OperandRecord.read resolver.layout) :=
    .bind (Reader.tame_seek position) fun _ => (OperandRecord.composed_read resolver.layout).tame
  rw [readRecord]
  exact read.result _

section Asks

variable (resolver : Resolver)

theorem asks_resolve (position : UInt32) : Asks resolver (resolver.resolve position) := .look _ _

theorem asks_resolveType (position : Int32) : Asks resolver (resolver.resolveType position) :=
  .typeAt _ position

theorem asks_resolveField (position : UInt32) : Asks resolver (resolver.resolveField position) := by
  refine .bind (asks_resolve resolver position) fun found => ?_
  split <;> exact .pure _

theorem asks_resolveMethod (position : UInt32) : Asks resolver (resolver.resolveMethod position) :=
  .methodAt _ _

theorem asks_resolveCall (position : UInt32) : Asks resolver (resolver.resolveCall position) := by
  refine .bind (.lift (resolver.readRecord_onlyFails _)) fun record => ?_
  split
  · exact .packedCall _ _
  · exact .map (asks_resolveMethod resolver position) _
  · exact .pure _

end Asks

end Resolver

namespace Decoder

/-- An operation that touches its session through lookups only. -/
def Asks (resolver : Resolver) (operation : DecodeM α) : Prop :=
  ∀ state, Resolver.Asks resolver (operation.run state)

namespace Asks

variable {resolver : Resolver}

theorem pure (value : α) : Asks resolver (Pure.pure value) := fun state => .pure (value, state)

theorem throw {e : Error} (is : e.Ordinary) :
    Asks resolver (MonadExcept.throw e : DecodeM α) := fun _ => .throw is

theorem malformed (reason : String) :
    Asks resolver (MonadExcept.throw (.malformed reason) : DecodeM α) :=
  throw (Error.IsMalformed.ordinary ⟨reason, rfl⟩)

theorem bind {first : DecodeM α} {next : α → DecodeM β} (now : Asks resolver first)
    (later : ∀ value, Asks resolver (next value)) : Asks resolver (first >>= next) := fun state =>
  .bind (now state) fun pair => later pair.1 pair.2

theorem map {operation : DecodeM α} (asks : Asks resolver operation) (f : α → β) :
    Asks resolver (operation >>= fun value => Pure.pure (f value)) :=
  bind asks fun _ => pure _

theorem get : Asks resolver (get : DecodeM Decoding) := fun state => .pure (state, state)

theorem modify (change : Decoding → Decoding) : Asks resolver (modify change : DecodeM PUnit) :=
  fun state => .pure (PUnit.unit, change state)

theorem modifyBody (change : DecodedBody → DecodedBody) : Asks resolver (modifyBody change) :=
  modify _

theorem reading {operation : ReadM α} (tame : Reader.Tame operation) :
    Asks resolver (reading operation) := by
  intro state
  have fails := (tame state.reader).2
  generalize ends : operation.run.run state.reader = outcome at fails
  obtain ⟨result, reader⟩ := outcome
  cases result with
  | error e =>
    rw [reading_eq_throw ends]
    exact .throw (fails e rfl)
  | ok value =>
    rw [reading_eq_pure ends]
    exact .pure (value, { state with reader })

theorem reads {operation : ReadM α} (composed : Reader.Composed operation) :
    Asks resolver (Decoder.reading operation) := reading composed.tame

theorem resolving {operation : ResolveM α} (asks : Resolver.Asks resolver operation) :
    Asks resolver (resolving operation) := fun state => .map asks fun value => (value, state)

end Asks

section Asks

variable {resolver : Resolver}

theorem asks_currentOffset (range : CodeRange) : Asks resolver (currentOffset range) := by
  refine .bind .get fun state => ?_
  dsimp only
  split
  · exact .pure _
  · exact .malformed _

theorem asks_skipOperand (kind : InlineOperand) : Asks resolver (skipOperand kind) := by
  rw [skipOperand]
  split
  · exact .reading (Reader.tame_skip _)
  · exact .bind (.reads .u32) fun _ => .reading (Reader.tame_skip _)

theorem asks_expectWord (code : UInt16) (kind : InlineOperand) :
    Asks resolver (expectWord code kind) := by
  rw [expectWord]
  split
  · exact .malformed _
  · exact .pure ()

theorem asks_readSize : Asks resolver readSize := by
  refine .bind (.reads .i32) fun size => ?_
  split
  · exact .malformed _
  · exact .pure _

theorem asks_openRange (decoder : Decoder) (size : Nat) : Asks resolver (decoder.openRange size) := by
  refine .bind .get fun state => .bind (.modify _) fun _ => ?_
  split
  · exact .throw (by constructor <;> simp [Error.kind])
  · split
    · exact .throw (by constructor <;> simp [Error.kind])
    · exact .map (.reads (.bytes size)) _

theorem asks_within {operation : DecodeM α} (plain : Bytes) (asks : Asks resolver operation) :
    Asks resolver (within plain operation) :=
  .bind .get fun _ => .bind (.modify _) fun _ => .bind asks fun _ => .bind (.modify _) fun _ => .pure _

theorem asks_require (what : String) (position : UInt32) (found : Option α) :
    Asks resolver (require what position found) := by
  cases found with
  | some value => exact .pure value
  | none => exact .throw (by constructor <;> simp [unresolved, Error.kind])

theorem asks_stringAt (position : UInt32) : Asks resolver (stringAt resolver position) := by
  refine .bind (.resolving (resolver.asks_resolve position)) fun found => ?_
  split
  · exact .pure _
  · exact .throw (by constructor <;> simp [Error.kind])
  · exact .throw (by constructor <;> simp [unresolved, Error.kind])

theorem asks_memberAt (position : UInt32) : Asks resolver (memberAt resolver position) := by
  refine .bind (.resolving (resolver.asks_resolve position)) fun found => ?_
  split
  · exact .throw (by constructor <;> simp [unresolved, Error.kind])
  · exact .throw (by constructor <;> simp [unresolved, Error.kind])
  · exact .pure _

theorem asks_readReference (opcode : OpCode) (kind : InlineOperand) :
    Asks resolver (readReference resolver opcode kind) := by
  refine .bind (.reads .u32) fun position => ?_
  split
  · exact .map (asks_stringAt position) _
  · exact .bind (.resolving (resolver.asks_resolveType _)) fun _ => .map (asks_require _ _ _) _
  · exact .bind (.resolving (resolver.asks_resolveField _)) fun _ => .map (asks_require _ _ _) _
  · exact .bind (.resolving (resolver.asks_resolveMethod _)) fun _ => .map (asks_require _ _ _) _
  · exact .map (asks_memberAt position) _
  · exact .throw (by constructor <;> simp [Error.kind])

theorem asks_readOperand (opcode : OpCode) (kind : InlineOperand) :
    Asks resolver (readOperand resolver opcode kind) := by
  cases kind with
  | inlineNone => exact .pure _
  | inlineBrTarget => exact .map (.reads .u32) _
  | shortInlineBrTarget => exact .map (.reads .u32) _
  | inlineSwitch =>
    exact .bind (.reads .u32) fun _ =>
      .map (.reads (.repeated .u32 _)) _
  | inlineI => exact .map (.reads .i32) _
  | inlineI8 => exact .map (.reads .i64) _
  | inlineR => exact .map (.reads .u64) _
  | shortInlineR => exact .map (.reads .u32) _
  | shortInlineI =>
    rw [readOperand]
    split
    · exact .map (.reads .i8) _
    · exact .map (.reads .u8) _
  | inlineVar => exact .map (.reads .u16) _
  | shortInlineVar => exact .map (.reads .u8) _
  | _ => exact .map (asks_readReference opcode _) _

theorem asks_decodeCil (offset : Nat) (opcode : OpCode) (kind : InlineOperand) :
    Asks resolver (decodeCil resolver offset opcode kind) := by
  refine .bind (asks_readOperand _ kind) fun raw => ?_
  cases raw <;> exact .modifyBody _

theorem asks_decodeCall (offset : Nat) : Asks resolver (decodeCall resolver offset) := by
  refine .bind (.reads .u32) fun position => ?_
  refine .bind (.resolving (resolver.asks_resolveCall position)) fun found => ?_
  split
  · exact .throw (by constructor <;> simp [Error.kind])
  · exact .modifyBody _

end Asks

theorem asks_decodeOne (decoder : Decoder) (range : CodeRange) (offset : Nat) :
    Asks decoder.resolver (decoder.decodeOne range offset) := by
  refine .bind (.reads .u16) fun code => ?_
  split
  · exact .bind (asks_currentOffset range) fun _ => .bind (.modifyBody _) fun _ => .pure _
  · split
    · refine .bind (asks_skipOperand _) fun _ => .bind (asks_currentOffset range) fun _ => ?_
      split
      · exact .malformed _
      · exact .bind (.modifyBody _) fun _ => .pure _
    · exact .bind (asks_skipOperand _) fun _ => .bind (.modifyBody _) fun _ => .pure _
    · exact .bind (asks_expectWord code _) fun _ => .bind (asks_decodeCall offset) fun _ => .pure _
    · exact .bind (asks_expectWord code _) fun _ => .map asks_readSize _
    · exact .bind (asks_decodeCil offset _ _) fun _ => .pure _

theorem asks_decodeFrom (decoder : Decoder) (range : CodeRange) (offset : Nat) :
    Asks decoder.resolver (decoder.decodeFrom range offset) := by
  induction left : range.finish - offset using Nat.strongRecOn generalizing range offset with
  | ind left ih =>
    subst left
    rw [decodeFrom]
    split
    · rename_i inside
      refine .bind (.bind (asks_decodeOne decoder range offset) fun result => ?_) fun stopped => ?_
      · cases result with
        | complete => exact .pure false
        | stopped => exact .pure true
        | guarded size =>
          refine .bind (asks_currentOffset range) fun base => ?_
          split
          · refine .bind (asks_openRange decoder size) fun plain => .bind (.modifyBody _) fun _ => ?_
            refine asks_within plain (ih size (by omega) ⟨base, size, 0⟩ base ?_)
            simp [CodeRange.finish]
          · exact .malformed _
      · split
        · exact .pure true
        · refine .bind (asks_currentOffset range) fun next => ?_
          split
          · exact ih (range.finish - next) (by omega) range next rfl
          · exact .malformed _
    · exact .pure false

theorem asks_decode (decoder : Decoder) (reader : Reader) (length : Nat) :
    Resolver.Asks decoder.resolver (decoder.decode reader length) :=
  .map (asks_decodeFrom decoder _ _ _) _

end Decoder

end CilRecovery
