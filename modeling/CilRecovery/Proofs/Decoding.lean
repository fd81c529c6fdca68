import CilRecovery.Proofs.Linking
import CilRecovery.Proofs.Lookups
import CilRecovery.Proofs.Reading

/-!
What decoding any bytes can come to. A decoder that does not fail has written lines at rising
offsets inside the code, and if it stopped early, it stopped behind them at a code that the catalog
lacks or has not identified.
-/
namespace CilRecovery

/-- An operand that is neither a target nor a placeholder. -/
def Operand.isPlain : Operand → Bool
  | target _ | switch _ | placeholder _ => false
  | _ => true

/-- An operand whose targets, if it has any, are still open. -/
def RawOperand.isOpen : RawOperand → Bool
  | ready operand => operand.isPlain
  | target _ | switch _ => true

/-- A line whose targets are still open. -/
def Line.isOpen (line : Line) : Bool := line.content.all fun code => code.2.isOpen

/-- The catalog gives the reason for which decoding stops at a code. -/
def DecodeStop.Justified (catalog : Catalog) (stop : DecodeStop) : Prop :=
  match stop.reason with
  | .unknownCode => catalog.get? (UInt32.ofNat stop.code) = none
  | .unidentified =>
    ∃ opcode, catalog.get? (UInt32.ofNat stop.code) = some opcode ∧ opcode.kind = .unidentified

/-- Lines between two virtual offsets, which rise. -/
structure Listing.Between (first last : Nat) (lines : List Line) : Prop where
  rising : (offsets lines).Pairwise (· < ·)
  bounds : ∀ offset ∈ offsets lines, first ≤ offset ∧ offset < last
  isOpen : ∀ line ∈ lines, line.isOpen

/-- What decoding between two virtual offsets does to a body. -/
inductive DecodedBody.Extends (catalog : Catalog) (first last : Nat) (before : DecodedBody) :
    (stopped : Bool) → (after : DecodedBody) → Prop where
  | whole (lines : List Line) (between : Listing.Between first last lines) :
    Extends catalog first last before false (lines.foldl Line.write before)
  | stopped (lines : List Line) (stop : DecodeStop)
    (between : Listing.Between first stop.offset lines) (inside : first ≤ stop.offset)
    (short : stop.offset < last) (justified : stop.Justified catalog) :
    Extends catalog first last before true ((lines.foldl Line.write before).stopAt stop)

namespace Listing.Between

theorem nil (first last : Nat) : Between first last [] := ⟨.nil, by simp [offsets], by simp⟩

theorem append {first middle last : Nat} {front back : List Line} (before : Between first middle front)
    (behind : Between middle last back) (le : first ≤ middle) (ge : middle ≤ last) :
    Between first last (front ++ back) := by
  have appended : offsets (front ++ back) = offsets front ++ offsets back := List.map_append
  constructor
  · rw [appended, List.pairwise_append]
    refine ⟨before.rising, behind.rising, fun low member high member' => ?_⟩
    have := before.bounds low member
    have := behind.bounds high member'
    omega
  · intro offset member
    rw [appended] at member
    rcases List.mem_append.mp member with here | later
    · have := before.bounds offset here
      omega
    · have := behind.bounds offset later
      omega
  · intro line member
    rcases List.mem_append.mp member with here | later
    · exact before.isOpen line here
    · exact behind.isOpen line later

theorem single {first last : Nat} {line : Line} (le : first ≤ line.offset) (lt : line.offset < last)
    (isOpen : line.isOpen) : Between first last [line] :=
  ⟨by simp [offsets], by simpa [offsets] using ⟨le, lt⟩, by simpa using isOpen⟩

theorem widen {first middle last : Nat} {lines : List Line} (between : Between first middle lines)
    (ge : middle ≤ last) : Between first last lines where
  rising := between.rising
  bounds offset member :=
    ⟨(between.bounds offset member).1, Nat.lt_of_lt_of_le (between.bounds offset member).2 ge⟩
  isOpen := between.isOpen

end Listing.Between

/-- Decoding that goes on behind other decoding. -/
theorem DecodedBody.Extends.trans {catalog : Catalog} {first middle last : Nat}
    {before after final : DecodedBody} {stopped : Bool}
    (now : Extends catalog first middle before false after)
    (later : Extends catalog middle last after stopped final) (le : first ≤ middle)
    (ge : middle ≤ last) : Extends catalog first last before stopped final := by
  cases now with
  | whole front fronts =>
    cases later with
    | whole back backs =>
      rw [← List.foldl_append]
      exact .whole _ (fronts.append backs le ge)
    | stopped back stop backs inside short justified =>
      rw [← List.foldl_append]
      exact .stopped _ stop (fronts.append backs le inside) (Nat.le_trans le inside) short justified

/-- Decoding inside a larger range. -/
theorem DecodedBody.Extends.widen {catalog : Catalog} {first middle last : Nat}
    {before after : DecodedBody} {stopped : Bool}
    (ends : Extends catalog first middle before stopped after) (ge : middle ≤ last) :
    Extends catalog first last before stopped after := by
  cases ends with
  | whole lines between => exact .whole lines (between.widen ge)
  | stopped lines stop between inside short justified =>
    exact .stopped lines stop between inside (Nat.lt_of_lt_of_le short ge) justified

/-- Decoding that stops early has begun. -/
theorem DecodedBody.Extends.first_lt_last {catalog : Catalog} {first last : Nat}
    {before after : DecodedBody} (ends : Extends catalog first last before true after) :
    first < last := by
  cases ends with
  | stopped lines stop between inside short justified => exact Nat.lt_of_le_of_lt inside short

namespace Decoder

/-- An operation whose result has some property if it does not fail. -/
def Ensures (operation : DecodeM α) (state : Decoding) (post : α → Decoding → Prop) : Prop :=
  ∀ session value after last,
    (operation.run state).run.run session = (.ok (value, after), last) → post value after

namespace Ensures

variable {state : Decoding} {post : α → Decoding → Prop}

theorem pure {value : α} (holds : post value state) : Ensures (Pure.pure value) state post := by
  rintro _ _ _ _ ends
  cases ends
  exact holds

theorem throw {e : Error} : Ensures (MonadExcept.throw e : DecodeM α) state post := by
  rintro _ _ _ _ ends
  cases ends

theorem bind {first : DecodeM α} {next : α → DecodeM β} {post : β → Decoding → Prop}
    (now : Ensures first state fun value between => Ensures (next value) between post) :
    Ensures (first >>= next) state post := by
  intro session result final last ends
  rw [StateT.run_bind, run_bind] at ends
  cases outcome : (first.run state).run.run session with
  | mk ended after =>
    rw [outcome] at ends
    cases ended with
    | error e => cases ends
    | ok pair => exact now session pair.1 pair.2 after outcome after result final last ends

theorem mono {operation : DecodeM α} {weaker : α → Decoding → Prop}
    (holds : Ensures operation state post)
    (weakens : ∀ value after, post value after → weaker value after) :
    Ensures operation state weaker := fun session value after last ends =>
  weakens value after (holds session value after last ends)

theorem get_bind {next : Decoding → DecodeM α} (later : Ensures (next state) state post) :
    Ensures (get >>= next) state post := later

theorem modify_bind {change : Decoding → Decoding} {next : PUnit → DecodeM α}
    (later : Ensures (next ⟨⟩) (change state) post) :
    Ensures (modify change >>= next) state post := later

theorem modifyBody_bind {change : DecodedBody → DecodedBody} {next : PUnit → DecodeM α}
    (later : Ensures (next ⟨⟩) { state with body := change state.body } post) :
    Ensures (modifyBody change >>= next) state post := later

theorem modifyBody {change : DecodedBody → DecodedBody} {post : Unit → Decoding → Prop}
    (holds : post () { state with body := change state.body }) :
    Ensures (modifyBody change) state post :=
  (pure holds : Ensures (Pure.pure ()) { state with body := change state.body } post)

theorem read {operation : ReadM α}
    (holds : ∀ value reader, operation.run.run state.reader = (.ok value, reader) →
      post value { state with reader }) :
    Ensures (reading operation) state post := by
  intro session value after last finds
  generalize ends : operation.run.run state.reader = outcome at holds
  obtain ⟨result, reader⟩ := outcome
  cases result with
  | error e =>
    rw [reading_eq_throw ends] at finds
    cases finds
  | ok read =>
    rw [reading_eq_pure ends] at finds
    cases finds
    exact holds value reader rfl

theorem reading {operation : ReadM α} (holds : ∀ value reader, post value { state with reader }) :
    Ensures (reading operation) state post := read fun value reader _ => holds value reader

theorem resolving {operation : ResolveM α} (holds : ∀ value, post value state) :
    Ensures (resolving operation) state post := by
  intro session value after last ends
  change (operation >>= fun value => Pure.pure (value, state)).run.run session = _ at ends
  rw [run_bind] at ends
  generalize operation.run.run session = outcome at ends
  obtain ⟨result, later⟩ := outcome
  cases result with
  | error e => cases ends
  | ok value =>
    cases ends
    exact holds value

end Ensures

/-- An operation that leaves the body alone. -/
abbrev Keeps (operation : DecodeM α) : Prop :=
  ∀ state, Ensures operation state fun _ after => after.body = state.body

namespace Keeps

theorem pure (value : α) : Keeps (Pure.pure value) := fun _ => .pure rfl

theorem bind {first : DecodeM α} {next : α → DecodeM β} (now : Keeps first)
    (later : ∀ value, Keeps (next value)) : Keeps (first >>= next) := fun state =>
  .bind <| (now state).mono fun value between same =>
    (later value between).mono fun _ _ kept => kept.trans same

theorem reading {operation : ReadM α} : Keeps (reading operation) := fun _ =>
  .reading fun _ _ => rfl

theorem resolving {operation : ResolveM α} : Keeps (resolving operation) := fun _ =>
  .resolving fun _ => rfl

end Keeps

theorem currentOffset_ensures (range : CodeRange) (state : Decoding) :
    Ensures (currentOffset range) state fun offset after =>
      offset = range.base + (state.reader.position - range.start) ∧ after = state := by
  refine .get_bind ?_
  dsimp only
  split
  · exact .pure ⟨rfl, rfl⟩
  · exact .throw

theorem Ensures.currentOffset_bind {range : CodeRange} {state : Decoding} {next : Nat → DecodeM α}
    {post : α → Decoding → Prop}
    (later : ∀ offset, offset = range.base + (state.reader.position - range.start) →
      Ensures (next offset) state post) : Ensures (currentOffset range >>= next) state post := by
  refine .bind <| (currentOffset_ensures range state).mono ?_
  rintro offset _ ⟨here, rfl⟩
  exact later offset here

theorem keeps_skipOperand (kind : InlineOperand) : Keeps (skipOperand kind) := by
  rw [skipOperand]
  split
  · exact .reading
  · exact .bind (.reading) fun _ => .reading

theorem keeps_expectWord (code : UInt16) (kind : InlineOperand) : Keeps (expectWord code kind) := by
  rw [expectWord]
  split
  · exact fun _ => .throw
  · exact .pure ()

theorem keeps_readSize : Keeps readSize := by
  refine .bind (.reading) fun size => ?_
  split
  · exact fun _ => .throw
  · exact .pure _

/-- A guarded range is read as a whole. -/
theorem openRange_ensures (decoder : Decoder) (size : Nat) (state : Decoding) :
    Ensures (decoder.openRange size) state fun _ after =>
      after.body = state.body ∧ state.reader.position + size ≤ after.reader.position := by
  refine .get_bind (.modify_bind ?_)
  split
  · exact .throw
  · split
    · exact .throw
    · refine .bind (.read fun bytes reader ends => .pure ⟨rfl, ?_⟩)
      exact Reader.position_le_of_bytes ends

theorem keeps_require (what : String) (position : UInt32) (found : Option α) :
    Keeps (require what position found) := by
  cases found with
  | some value => exact .pure value
  | none => exact fun _ => .throw

theorem keeps_stringAt (resolver : Resolver) (position : UInt32) :
    Keeps (stringAt resolver position) := by
  refine .bind (.resolving) fun found => ?_
  split
  · exact .pure _
  · exact fun _ => .throw
  · exact fun _ => .throw

theorem keeps_memberAt (resolver : Resolver) (position : UInt32) :
    Keeps (memberAt resolver position) := by
  refine .bind (.resolving) fun found => ?_
  split
  · exact fun _ => .throw
  · exact fun _ => .throw
  · exact .pure _

/-- A reference is read as a plain operand. -/
theorem readReference_ensures (resolver : Resolver) (opcode : OpCode) (kind : InlineOperand)
    (state : Decoding) :
    Ensures (readReference resolver opcode kind) state fun operand after =>
      operand.isPlain ∧ after.body = state.body := by
  have wrap {α : Type} {operation : DecodeM α} (keeps : Keeps operation) (make : α → Operand)
      (plain : ∀ value, (make value).isPlain) {between : Decoding}
      (same : between.body = state.body) :
      Ensures (operation >>= fun value => pure (make value)) between
        fun operand after => operand.isPlain ∧ after.body = state.body :=
    .bind <| (keeps between).mono fun value _ kept => .pure ⟨plain value, kept.trans same⟩
  refine .bind (.reading fun position reader => ?_)
  split
  · exact wrap (keeps_stringAt resolver position) .string (fun _ => rfl) rfl
  · exact .bind (.resolving fun found =>
      wrap (keeps_require "type" position found) .type (fun _ => rfl) rfl)
  · exact .bind (.resolving fun found =>
      wrap (keeps_require "field" position found) .field (fun _ => rfl) rfl)
  · exact .bind (.resolving fun found =>
      wrap (keeps_require "method" position found) .method (fun _ => rfl) rfl)
  · exact wrap (keeps_memberAt resolver position) .token (fun _ => rfl) rfl
  · exact .throw

theorem readOperand_ensures (resolver : Resolver) (opcode : OpCode) (kind : InlineOperand)
    (state : Decoding) :
    Ensures (readOperand resolver opcode kind) state fun raw after =>
      raw.isOpen ∧ after.body = state.body := by
  have wrap {α : Type} {operation : ReadM α} (make : α → RawOperand)
      (isOpen : ∀ value, (make value).isOpen) :
      Ensures (reading operation >>= fun value => pure (make value)) state
        fun raw after => raw.isOpen ∧ after.body = state.body :=
    .bind (.reading fun value _ => .pure ⟨isOpen value, rfl⟩)
  have reference : Ensures (readReference resolver opcode kind >>= fun operand =>
      pure (RawOperand.ready operand)) state fun raw after =>
        raw.isOpen ∧ after.body = state.body :=
    .bind <| (readReference_ensures resolver opcode kind state).mono
      fun operand after holds => .pure holds
  have slotPlain (index : Nat) : (slot opcode index).isPlain := by
    rw [slot]
    split <;> rfl
  cases kind with
  | inlineNone => exact .pure ⟨rfl, rfl⟩
  | inlineBrTarget => exact wrap _ fun _ => rfl
  | shortInlineBrTarget => exact wrap _ fun _ => rfl
  | inlineSwitch =>
    refine .bind (.reading fun count _ => ?_)
    exact .bind (.reading fun _ _ => .pure ⟨rfl, rfl⟩)
  | inlineI => exact wrap _ fun _ => rfl
  | inlineI8 => exact wrap _ fun _ => rfl
  | inlineR => exact wrap _ fun _ => rfl
  | shortInlineR => exact wrap _ fun _ => rfl
  | shortInlineI =>
    rw [readOperand]
    split
    · exact wrap _ fun _ => rfl
    · exact wrap _ fun _ => rfl
  | inlineVar => exact wrap _ fun _ => slotPlain _
  | shortInlineVar => exact wrap _ fun _ => slotPlain _
  | _ => exact reference

/-- What one virtual instruction does to a body. -/
def Takes (catalog : Catalog) (offset : Nat) (before : DecodedBody) :
    Decoded → DecodedBody → Prop
  | .complete, after => ∃ line : Line, line.offset = offset ∧ line.isOpen ∧ after = line.write before
  | .stopped, after =>
    ∃ stop : DecodeStop, stop.offset = offset ∧ stop.Justified catalog ∧ after = before.stopAt stop
  | .guarded _, after => after = before

theorem decodeCil_ensures (resolver : Resolver) (offset : Nat) (opcode : OpCode)
    (kind : InlineOperand) (state : Decoding) :
    Ensures (decodeCil resolver offset opcode kind) state fun _ after =>
      ∃ line : Line, line.offset = offset ∧ line.isOpen ∧ after.body = line.write state.body := by
  refine .bind <| (readOperand_ensures resolver _ kind state).mono fun raw between holds => ?_
  obtain ⟨isOpen, same⟩ := holds
  rw [← same]
  have line (after : DecodedBody)
      (written : after = Line.write between.body ⟨offset, some (opcode.formFor kind, raw)⟩) :
      ∃ line : Line, line.offset = offset ∧ line.isOpen ∧ after = line.write between.body :=
    ⟨⟨offset, some (opcode.formFor kind, raw)⟩, rfl, isOpen, written⟩
  cases raw with
  | ready operand => exact .modifyBody (line _ rfl)
  | target target => exact .modifyBody (line _ rfl)
  | switch targets => exact .modifyBody (line _ rfl)

theorem decodeCall_ensures (resolver : Resolver) (offset : Nat) (state : Decoding) :
    Ensures (decodeCall resolver offset) state fun _ after =>
      ∃ line : Line, line.offset = offset ∧ line.isOpen ∧ after.body = line.write state.body := by
  refine .bind (.reading fun position _ => ?_)
  refine .bind (.resolving fun found => ?_)
  split
  · exact .throw
  · rename_i method isVirtual
    exact .modifyBody ⟨⟨offset, some (_, .ready (.method method))⟩, rfl, rfl, rfl⟩

theorem decodeOne_ensures (decoder : Decoder) (range : CodeRange) (offset : Nat) (state : Decoding) :
    Ensures (decoder.decodeOne range offset) state fun result after =>
      Takes decoder.catalog offset state.body result after.body := by
  refine .bind (.reading fun code _ => ?_)
  split
  · rename_i unknown
    refine .bind <| (currentOffset_ensures range _).mono fun finish between ⟨_, same⟩ => ?_
    refine .modifyBody_bind (.pure ⟨⟨.unknownCode, offset, code.toNat, finish⟩, rfl, ?_, ?_⟩)
    · simpa [DecodeStop.Justified] using unknown
    · rw [same]
  · rename_i opcode known
    split
    · rename_i unidentified
      refine .bind <| (keeps_skipOperand opcode.operand _).mono fun _ skipped same => ?_
      refine .bind <| (currentOffset_ensures range skipped).mono fun finish between ⟨_, same'⟩ => ?_
      split
      · exact .throw
      · refine .modifyBody_bind (.pure ⟨⟨.unidentified, offset, code.toNat, finish⟩, rfl, ?_, ?_⟩)
        · simpa [DecodeStop.Justified, known] using unidentified
        · rw [same', same]
    · refine .bind <| (keeps_skipOperand opcode.operand _).mono fun _ skipped same => ?_
      refine .modifyBody_bind (.pure ⟨⟨offset, none⟩, rfl, rfl, ?_⟩)
      rw [same]
      rfl
    · refine .bind <| (keeps_expectWord code opcode.operand _).mono fun _ between same => ?_
      refine .bind <| (decodeCall_ensures decoder.resolver offset between).mono
        fun _ after line => .pure ?_
      rw [same] at line
      exact line
    · refine .bind <| (keeps_expectWord code opcode.operand _).mono fun _ between same => ?_
      refine .bind <| (keeps_readSize between).mono fun size after same' => .pure ?_
      exact same'.trans same
    · rename_i cil _
      exact .bind <| (decodeCil_ensures decoder.resolver offset cil opcode.operand _).mono
        fun _ after line => .pure line

theorem within_ensures {operation : DecodeM α} {state : Decoding} {plain : Bytes}
    (post : α → DecodedBody → Prop)
    (ensures : ∀ reader, Ensures operation { state with reader } fun value after =>
      post value after.body) :
    Ensures (within plain operation) state fun value after =>
      post value after.body ∧ after.reader = state.reader :=
  .get_bind <| .modify_bind <| .bind <| (ensures _).mono fun _ _ holds =>
    .modify_bind (.pure ⟨holds, rfl⟩)

/-- The instruction at an offset extends a body up to some place in the range, and unless decoding
stopped, the reader has come to that place. -/
def Passes (decoder : Decoder) (range : CodeRange) (offset : Nat) (start : DecodedBody)
    (stopped : Bool) (after : Decoding) : Prop :=
  ∃ last, start.Extends decoder.catalog offset last stopped after.body ∧
    if stopped then last ≤ range.finish
    else last ≤ offset + 1 ∨ last ≤ range.base + (after.reader.position - range.start)

theorem guarded_ensures {decoder : Decoder} {range : CodeRange} {offset base size : Nat}
    {state : Decoding} (started : range.base ≤ offset)
    (fits : offset < base ∧ size ≤ range.finish - base)
    (here : base = range.base + (state.reader.position - range.start))
    (inner : ∀ inside : Decoding, Ensures (decoder.decodeFrom ⟨base, size, 0⟩ base) inside
      fun stopped after =>
        inside.body.Extends decoder.catalog base (base + size) stopped after.body) :
    Ensures (do
      let plain ← decoder.openRange size
      modifyBody (·.skip offset)
      within plain (decoder.decodeFrom ⟨base, size, 0⟩ base)) state
      (decoder.Passes range offset state.body) := by
  refine .bind <| (openRange_ensures decoder size state).mono ?_
  rintro plain opened ⟨kept, passed⟩
  refine .modifyBody_bind ?_
  refine (within_ensures ((opened.body.skip offset).Extends decoder.catalog base (base + size))
    fun reader => inner { opened with body := opened.body.skip offset, reader }).mono ?_
  rintro stopped after ⟨extended, back⟩
  have first : state.body.Extends decoder.catalog offset base false (opened.body.skip offset) := by
    rw [kept]
    exact .whole [⟨offset, none⟩] (.single (Nat.le_refl _) fits.1 rfl)
  refine ⟨base + size, first.trans extended (by omega) (by omega), ?_⟩
  rw [back]
  cases stopped with
  | true =>
    have nonempty := extended.first_lt_last
    rw [if_pos rfl]
    omega
  | false =>
    rw [if_neg Bool.false_ne_true]
    right
    change base + size ≤ range.base + (opened.reader.position - range.start)
    omega

/-- Decoding from an offset on extends the body between the offset and the end of the range. -/
theorem decodeFrom_ensures (decoder : Decoder) (range : CodeRange) (offset : Nat)
    (started : range.base ≤ offset) (state : Decoding) :
    Ensures (decoder.decodeFrom range offset) state fun stopped after =>
      state.body.Extends decoder.catalog offset range.finish stopped after.body := by
  -- The induction is on what is left of the range; a guarded range is shorter than what is left.
  induction left : range.finish - offset using Nat.strongRecOn generalizing range offset state with
  | ind left ih =>
    subst left
    rw [decodeFrom]
    split
    · rename_i inside
      refine .bind <| Ensures.mono
        (?_ : Ensures _ state (decoder.Passes range offset state.body)) ?_
      · refine .bind <| (decodeOne_ensures decoder range offset state).mono ?_
        intro result between takes
        cases result with
        | complete =>
          obtain ⟨line, rfl, isOpen, written⟩ := takes
          refine .pure ⟨line.offset + 1, ?_, .inl (Nat.le_refl _)⟩
          rw [written]
          exact .whole [line] (.single (Nat.le_refl _) (Nat.lt_succ_self _) isOpen)
        | stopped =>
          obtain ⟨stop, rfl, justified, stopped⟩ := takes
          refine .pure ⟨range.finish, ?_, Nat.le_refl _⟩
          rw [stopped]
          exact .stopped [] stop (.nil _ _) (Nat.le_refl _) inside justified
        | guarded size =>
          have same : between.body = state.body := takes
          refine .currentOffset_bind fun base here => ?_
          split
          · rename_i fits
            rw [← same]
            exact guarded_ensures started fits here fun inside =>
              ih size (by omega) ⟨base, size, 0⟩ base (Nat.le_refl _) inside
                (by simp [CodeRange.finish])
          · exact .throw
      · rintro stopped between ⟨last, now, bound⟩
        cases stopped with
        | true => exact .pure (now.widen bound)
        | false =>
          refine .currentOffset_bind fun next here => ?_
          split
          · rename_i advances
            have behind := ih (range.finish - next) (by omega) range next (by omega) between rfl
            refine behind.mono fun stopped after later => ?_
            rw [if_neg Bool.false_ne_true] at bound
            exact (now.widen (by omega)).trans later (by omega) advances.2
          · exact .throw
    · exact .pure (.whole [] (.nil _ _))

/-- Decoding that does not fail comes to the end or stops early. -/
theorem decode_ensures (decoder : Decoder) {reader after : Reader} {length : Nat}
    {session last : Session} {body : DecodedBody}
    (ends : (decoder.decode reader length).run.run session = (.ok (body, after), last)) :
    ∃ written stopped, body = written.settle ∧
      DecodedBody.Extends decoder.catalog 0 length { length } stopped written := by
  have ensures := decodeFrom_ensures decoder ⟨0, length, reader.position⟩ 0 (Nat.le_refl _)
    { reader := { reader with active := .instruction }, body := { length } } session
  rw [decode, run_bind] at ends
  cases outcome : ((decoder.decodeFrom ⟨0, length, reader.position⟩ 0).run
      { reader := { reader with active := .instruction }, body := { length } }).run.run session with
  | mk result between =>
    rw [outcome] at ends
    cases result with
    | error e => cases ends
    | ok pair =>
      cases ends
      have extended := ensures pair.1 pair.2 _ outcome
      rw [show CodeRange.finish ⟨0, length, reader.position⟩ = length from Nat.zero_add length]
        at extended
      exact ⟨pair.2.body, pair.1, rfl, extended⟩

end Decoder

/-- The line that a placeholder stands in. -/
def DecodeStop.line (stop : DecodeStop) : Line :=
  ⟨stop.offset, some (.nop, .ready (.placeholder stop.code))⟩

theorem DecodedBody.stopAt_eq (body : DecodedBody) (stop : DecodeStop) :
    body.stopAt stop = { stop.line.write body with stop := some stop } := rfl

theorem DecodedBody.settle_stopAt_written (length : Nat) (lines : List Line) (stop : DecodeStop) :
    ((Listing.written length lines).stopAt stop).settle =
      { (Listing.written length (lines ++ [stop.line])).settle with stop := some stop } := by
  rw [stopAt_eq, Listing.written_snoc]
  rfl

/-- What decoding and linking come to: a body of lines all of whose targets land, or one that ends
in a placeholder. -/
inductive DecodedBody.Linked (catalog : Catalog) (length : Nat) : DecodedBody → Prop where
  | whole (lines : List Line) (between : Listing.Between 0 length lines)
    (lands : ∀ line ∈ lines, ∀ target ∈ line.targets, Listing.Lands lines target) :
    Linked catalog length { (Listing.written length lines).settle with
      instructions := Listing.linked (Listing.before lines) lines }
  | stopped (lines : List Line) (stop : DecodeStop)
    (between : Listing.Between 0 stop.offset lines) (justified : stop.Justified catalog)
    (label : Nat → Label) :
    Linked catalog length { ((Listing.written length lines).stopAt stop).settle with
      instructions := Listing.linked label (lines ++ [stop.line]) }

theorem DecodedBody.Extends.linked {catalog : Catalog} {length : Nat} {stopped : Bool}
    {written fixed : DecodedBody} (extended : Extends catalog 0 length { length } stopped written)
    (links : written.settle.fixBranches = .ok fixed) : Linked catalog length fixed := by
  cases extended with
  | whole lines between =>
    obtain ⟨lands, rfl⟩ := (Listing.fixBranches_settle_written between.rising fixed).mp links
    exact .whole lines between lands
  | stopped lines stop between inside short justified =>
    have listed : ((Listing.written length lines).stopAt stop).settle.instructions =
        Listing.instructions (lines ++ [stop.line]) := by
      rw [settle_stopAt_written]
      exact Listing.instructions_written length _
    have branched : ((Listing.written length lines).stopAt stop).settle.branches =
        Listing.branches 0 (lines ++ [stop.line]) := by
      rw [settle_stopAt_written]
      exact Listing.branches_written length _
    obtain ⟨_, rfl⟩ := (Listing.fixBranches_eq_ok_iff listed branched).mp links
    exact .stopped lines stop between justified _

namespace Listing

theorem isPlaceholder_of_isOpen {line : Line} {instruction : Instruction} (isOpen : line.isOpen)
    (is : line.instruction? = some instruction) : instruction.isPlaceholder = false := by
  obtain ⟨⟨opcode, operand⟩, content, rfl⟩ := Option.map_eq_some_iff.mp is
  simp only [Line.isOpen, content, Option.all_some] at isOpen
  cases operand with
  | ready operand => cases operand <;> first | rfl | cases isOpen
  | target offset => rfl
  | switch offsets => rfl

/-- Linking makes no placeholder and removes none. -/
theorem isPlaceholder_linked (label : Nat → Label) (lines : List Line) :
    (linked label lines).map Instruction.isPlaceholder =
      (instructions lines).map Instruction.isPlaceholder := by
  rw [linked, instructions, List.map_filterMap, List.map_filterMap]
  apply List.filterMap_congr
  intro line _
  rw [Line.linked?, Line.instruction?]
  rcases line.content with _ | ⟨opcode, operand⟩
  · rfl
  · cases operand <;> rfl

/-- Lines whose targets were open hold no placeholder. -/
theorem countP_isPlaceholder_linked {lines : List Line} (isOpen : ∀ line ∈ lines, line.isOpen)
    (label : Nat → Label) : (linked label lines).countP Instruction.isPlaceholder = 0 := by
  have same := congrArg (List.countP id) (isPlaceholder_linked label lines)
  simp only [List.countP_map, Function.id_comp] at same
  rw [same]
  apply List.countP_eq_zero.mpr
  intro instruction member
  obtain ⟨line, there, is⟩ := List.mem_filterMap.mp member
  rw [isPlaceholder_of_isOpen (isOpen line there) is]
  exact Bool.false_ne_true

end Listing

/-- A body holds a placeholder exactly if decoding stopped early, and then only one. -/
theorem DecodedBody.Linked.countP_isPlaceholder {catalog : Catalog} {length : Nat}
    {body : DecodedBody} (linked : Linked catalog length body) :
    body.instructions.countP Instruction.isPlaceholder = if body.stop.isSome then 1 else 0 := by
  cases linked with
  | whole lines between lands =>
    have whole : (Listing.written length lines).settle.stop = none := Listing.stop_written length lines
    simp only [whole, Listing.countP_isPlaceholder_linked between.isOpen]
    rfl
  | stopped lines stop between justified label =>
    have last : Listing.linked label (lines ++ [stop.line]) =
        Listing.linked label lines ++ Listing.linked label [stop.line] := List.filterMap_append
    simp only [last, List.countP_append, Listing.countP_isPlaceholder_linked between.isOpen]
    rfl

theorem DecodedBody.Linked.justified {catalog : Catalog} {length : Nat} {body : DecodedBody}
    (linked : Linked catalog length body) {stop : DecodeStop} (stopped : body.stop = some stop) :
    stop.Justified catalog := by
  cases linked with
  | whole lines between lands =>
    rw [show (Listing.written length lines).settle.stop = none from
      Listing.stop_written length lines] at stopped
    cases stopped
  | stopped lines stop between justified label =>
    cases stopped
    exact justified

end CilRecovery
