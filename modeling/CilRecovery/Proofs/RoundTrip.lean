import CilRecovery.Proofs.Program

/-!
Decoding inverts encoding. The decoder reads back each operand, each instruction and each guarded
range of an encoded program, and so writes the lines that the program means.
-/
namespace CilRecovery

namespace Decoder

theorem run_bind_ok {first : DecodeM α} {next : α → DecodeM β} {state between : Decoding}
    {session after : Session} {value : α}
    (ends : (first.run state).run.run session = (.ok (value, between), after)) :
    ((first >>= next).run state).run.run session =
      ((next value).run between).run.run after := by
  rw [StateT.run_bind, CilRecovery.run_bind_ok ends]

theorem reading_run {operation : ReadM α} {state : Decoding} {value : α} {reader : Reader}
    (ends : operation.run.run state.reader = (.ok value, reader)) (session : Session) :
    ((reading operation).run state).run.run session =
      (.ok (value, { state with reader }), session) := by
  rw [reading_eq_pure ends]
  rfl

theorem resolving_run {operation : ResolveM α} {session after : Session} {value : α}
    (ends : operation.run.run session = (.ok value, after)) (state : Decoding) :
    ((resolving operation).run state).run.run session = (.ok (value, state), after) := by
  change (operation >>= fun value => pure (value, state)).run.run session = _
  rw [CilRecovery.run_bind_ok ends]
  rfl

theorem modifyBody_run (change : DecodedBody → DecodedBody) (state : Decoding)
    (session : Session) :
    ((modifyBody change).run state).run.run session =
      (.ok ((), { state with body := change state.body }), session) := rfl

section Operands

variable {resolver : Resolver} {state : Decoding} {session after : Session} {kind : InlineOperand}

/-- A position that resolves to the kind wanted is read as what it resolves to. -/
theorem readReference_run {position : UInt32} {opcode : OpCode} {resolved : Resolved}
    {operand : Operand}
    (ahead : state.reader.Ahead ((state.reader.profile.get .four).encode position.toNat))
    (found : (resolver.resolve position).run.run session = (.ok (some resolved), after))
    (wanted : kind.operand? resolved = some operand) :
    ((readReference resolver opcode kind).run state).run.run session =
      (.ok (operand, { state with reader := state.reader.after 4 }), after) := by
  rw [readReference, run_bind_ok (reading_run (Reader.u32_run ahead) session)]
  cases kind with
  | inlineString =>
    cases resolved <;> cases wanted
    rename_i text
    have string : ((stringAt resolver position).run { state with reader := state.reader.after 4 }).run.run
        session = (.ok (text, { state with reader := state.reader.after 4 }), after) := by
      rw [stringAt, run_bind_ok (resolving_run found _)]
      rfl
    simp only [run_bind_ok string]
    rfl
  | inlineType =>
    cases resolved <;> cases wanted
    rename_i sig
    have type : (resolver.resolveType position.toInt32).run.run session =
        (.ok (some sig), after) := by
      rw [Resolver.resolveType, Resolver.typeAt, ← Resolver.resolve, CilRecovery.run_bind_ok found]
      rfl
    simp only [run_bind_ok (resolving_run type _)]
    rfl
  | inlineField =>
    cases resolved <;> cases wanted
    rename_i ref
    have field : (resolver.resolveField position).run.run session = (.ok (some ref), after) := by
      rw [Resolver.resolveField, CilRecovery.run_bind_ok found]
      rfl
    simp only [run_bind_ok (resolving_run field _)]
    rfl
  | inlineMethod =>
    cases resolved <;> cases wanted
    rename_i ref
    have method : (resolver.resolveMethod position).run.run session =
        (.ok (some ref), after) := by
      rw [Resolver.resolveMethod, Resolver.methodAt, ← Resolver.resolve,
        CilRecovery.run_bind_ok found]
      rfl
    simp only [run_bind_ok (resolving_run method _)]
    rfl
  | inlineTok =>
    have member : ((memberAt resolver position).run { state with reader := state.reader.after 4 }).run.run
        session = (.ok (resolved, { state with reader := state.reader.after 4 }), after) := by
      rw [memberAt, run_bind_ok (resolving_run found _)]
      cases resolved <;> first | rfl | cases wanted
    simp only [run_bind_ok member]
    cases resolved <;> cases wanted <;> rfl
  | _ => cases resolved <;> cases wanted

/-- An operand is read back as what it means. -/
theorem readOperand_run {opcode : OpCode} {operand : VirtualOperand kind} {raw : RawOperand}
    (ahead : state.reader.Ahead (operand.encode state.reader.profile))
    (means : operand.meaning? resolver opcode session = some (raw, after)) :
    ((readOperand resolver opcode kind).run state).run.run session =
      (.ok (raw, { state with reader := state.reader.after operand.size }), after) := by
  cases operand with
  | none =>
    cases means
    rfl
  | target offset =>
    cases means
    rw [readOperand, run_bind_ok (reading_run (Reader.u32_run ahead) session)]
    rfl
  | shortTarget offset =>
    cases means
    rw [readOperand, run_bind_ok (reading_run (Reader.u32_run ahead) session)]
    rfl
  | switch offsets fits =>
    cases means
    have count : (UInt32.ofNat offsets.length).toNat = offsets.length :=
      UInt32.toNat_ofNat_of_lt' fits
    have first := ahead.left
    rw [← count] at first
    have later := ahead.right
    rw [Profile.length_encode] at later
    rw [readOperand, run_bind_ok (reading_run (Reader.u32_run first) session), count,
      run_bind_ok (reading_run (Reader.repeated_u32_run later) session), Reader.after_after]
    rfl
  | int32 value =>
    cases means
    rw [readOperand, run_bind_ok (reading_run (Reader.i32_run ahead) session)]
    rfl
  | int64 value =>
    cases means
    rw [readOperand, run_bind_ok (reading_run (Reader.i64_run ahead) session)]
    rfl
  | float64 bits =>
    cases means
    rw [readOperand, run_bind_ok (reading_run (Reader.u64_run ahead) session)]
    rfl
  | float32 bits =>
    cases means
    rw [readOperand, run_bind_ok (reading_run (Reader.u32_run ahead) session)]
    rfl
  | byte value =>
    cases means
    rw [readOperand]
    by_cases small : opcode = .ldcI4S
    · rw [if_pos small, if_pos small,
        run_bind_ok (reading_run (Reader.i8_run ahead) session)]
      rfl
    · rw [if_neg small, if_neg small,
        run_bind_ok (reading_run (Reader.u8_run ahead) session)]
      rfl
  | slot index =>
    cases means
    rw [readOperand, run_bind_ok (reading_run (Reader.u16_run ahead) session)]
    rfl
  | shortSlot index =>
    cases means
    rw [readOperand, run_bind_ok (reading_run (Reader.u8_run ahead) session)]
    rfl
  | reference position is =>
    rw [VirtualOperand.meaning?] at means
    obtain ⟨⟨resolved, last⟩, found, means⟩ := Option.bind_eq_some_iff.mp means
    obtain ⟨operand, wanted, same⟩ := Option.bind_eq_some_iff.mp means
    cases same
    have reference : ((readOperand resolver opcode kind).run state).run.run session =
        ((readReference resolver opcode kind >>= fun operand =>
          pure (RawOperand.ready operand)).run state).run.run session := by
      cases kind <;> first | rfl | cases is
    rw [reference, run_bind_ok
      (readReference_run ahead (Resolver.found?_eq_some_iff.mp found) wanted)]
    rfl

theorem skipOperand_run {operand : IgnoredOperand kind}
    (ahead : state.reader.Ahead (operand.encode state.reader.profile))
    (small : operand.size < 0x8000000000000000)
    (inside : state.reader.position + operand.size < 0x10000000000000000) (session : Session) :
    ((skipOperand kind).run state).run.run session =
      (.ok ((), { state with reader := state.reader.after operand.size }), session) := by
  cases operand with
  | plain bytes fills =>
    rw [skipOperand, fills]
    exact reading_run (Reader.skip_run _ small inside) session
  | table count bytes isTable fills =>
    simp only [IgnoredOperand.size, fills] at small inside ⊢
    have later : (state.reader.after 4).position + 4 * count.toNat < 0x10000000000000000 := by
      rw [Reader.after_position]
      omega
    simp only [skipOperand, isTable]
    rw [run_bind_ok (reading_run (Reader.u32_run ahead.left) session),
      reading_run (Reader.skip_run _ (by omega) later) session, Reader.after_after]

theorem expectWord_run (code : UInt16) (takesWord : kind.virtualWidth? = some 4)
    (state : Decoding) (session : Session) :
    ((expectWord code kind).run state).run.run session = (.ok ((), state), session) := by
  rw [expectWord, if_neg (not_not.mpr takesWord)]
  rfl

end Operands

section Instructions

variable {decoder : Decoder} {state : Decoding} {session after : Session}

/-- An instruction is decoded to the line that it means. -/
theorem decodeOne_run {item : VirtualItem decoder.catalog}
    {content : Option (OpCode × RawOperand)}
    (ahead : state.reader.Ahead (item.encode state.reader.profile))
    (small : item.size < 0x8000000000000000)
    (inside : state.reader.position + item.size < 0x10000000000000000)
    (means : item.meaning? decoder.resolver session = some (content, after)) (range : CodeRange)
    (offset : Nat) :
    ((decoder.decodeOne range offset).run state).run.run session =
      (.ok (.complete,
        { state with
          reader := state.reader.after item.size
          body := Line.write state.body ⟨offset, content⟩ }), after) := by
  cases item with
  | cil entry opcode is operand =>
    rw [VirtualItem.meaning?] at means
    obtain ⟨⟨raw, last⟩, meant, same⟩ := Option.bind_eq_some_iff.mp means
    cases same
    rw [decodeOne, run_bind_ok (reading_run (Reader.u16_run ahead.left) session), entry.get?_code]
    simp only [is]
    have later := ahead.right
    rw [Catalog.Entry.encode, Profile.length_encode] at later
    have decoded : ((decodeCil decoder.resolver offset opcode entry.opcode.operand).run
        { state with reader := state.reader.after 2 }).run.run session =
        (.ok ((), { state with
          reader := state.reader.after (2 + operand.size)
          body := Line.write state.body
            ⟨offset, some (opcode.formFor entry.opcode.operand, raw)⟩ }), after) := by
      rw [decodeCil, run_bind_ok (readOperand_run later meant), Reader.after_after]
      cases raw <;> rfl
    rw [run_bind_ok decoded]
    rfl
  | call entry is takesWord position =>
    rw [decodeOne, run_bind_ok (reading_run (Reader.u16_run ahead.left) session), entry.get?_code]
    simp only [is]
    have later := ahead.right
    rw [Catalog.Entry.encode, Profile.length_encode] at later
    rw [VirtualItem.meaning?] at means
    obtain ⟨⟨⟨method, isVirtual⟩, last⟩, found, same⟩ := Option.bind_eq_some_iff.mp means
    cases same
    have decoded : ((decodeCall decoder.resolver offset).run
        { state with reader := state.reader.after 2 }).run.run session =
        (.ok ((), { state with
          reader := state.reader.after 6
          body := Line.write state.body
            ⟨offset, some (if isVirtual then .callvirt else .call, .ready (.method method))⟩ }),
          after) := by
      rw [decodeCall, run_bind_ok (reading_run (Reader.u32_run later) session),
        run_bind_ok (resolving_run (Resolver.found?_eq_some_iff.mp found) _), Reader.after_after]
      rfl
    rw [run_bind_ok (expectWord_run entry.code takesWord _ session), run_bind_ok decoded]
    rfl
  | noEffect entry is operand =>
    cases means
    rw [decodeOne, run_bind_ok (reading_run (Reader.u16_run ahead.left) session), entry.get?_code]
    simp only [is]
    have later := ahead.right
    rw [Catalog.Entry.encode, Profile.length_encode] at later
    simp only [VirtualItem.size] at small inside
    have fits : (state.reader.after 2).position + operand.size < 0x10000000000000000 := by
      rw [Reader.after_position]
      omega
    have skipped : ((skipOperand entry.opcode.operand).run
        { state with reader := state.reader.after 2 }).run.run session =
        (.ok ((), { state with reader := (state.reader.after 2).after operand.size }), session) :=
      skipOperand_run later (by omega) fits session
    rw [run_bind_ok skipped, Reader.after_after]
    rfl

/-- The start of a guarded range is decoded to its size. -/
theorem decodeOne_guarded {entry : decoder.catalog.Entry}
    (is : entry.opcode.kind = .special .chainBoundary)
    (takesWord : entry.opcode.operand.virtualWidth? = some 4) {size : Nat}
    (small : size < 0x80000000)
    (ahead : state.reader.Ahead
      (entry.encode state.reader.profile ++ (state.reader.profile.get .four).encode size))
    (range : CodeRange) (offset : Nat) :
    ((decoder.decodeOne range offset).run state).run.run session =
      (.ok (.guarded size, { state with reader := state.reader.after 6 }), session) := by
  have value : (UInt32.ofNat size).toInt32.toInt = size := by
    rw [UInt32.toInt32_ofNat', Int32.toInt_ofNat_of_lt small]
  have whole : (UInt32.ofNat size).toNat = size :=
    UInt32.toNat_ofNat_of_lt' (Nat.lt_trans small (by decide))
  have later := ahead.right
  rw [Catalog.Entry.encode, Profile.length_encode, ← whole] at later
  have read : (readSize.run { state with reader := state.reader.after 2 }).run.run session =
      (.ok (size, { state with reader := state.reader.after 6 }), session) := by
    have word : Reader.i32.run.run (state.reader.after 2) =
        (.ok (UInt32.ofNat size).toInt32, (state.reader.after 2).after 4) := Reader.i32_run later
    have nonnegative : ¬ (UInt32.ofNat size).toInt32 < 0 := by
      rw [Int32.lt_iff_toInt_lt, value]
      simp
    rw [readSize, run_bind_ok (reading_run word session), if_neg nonnegative, value,
      Reader.after_after]
    rfl
  rw [decodeOne, run_bind_ok (reading_run (Reader.u16_run ahead.left) session), entry.get?_code]
  simp only [is]
  rw [run_bind_ok (expectWord_run entry.code takesWord _ session), run_bind_ok read]
  rfl

end Instructions

end Decoder

/-- A reader of a range stands at a virtual offset. -/
structure CodeRange.At (range : CodeRange) (reader : Reader) (offset : Nat) : Prop where
  started : range.start ≤ reader.position
  here : range.base + (reader.position - range.start) = offset

theorem CodeRange.At.after {range : CodeRange} {reader : Reader} {offset : Nat}
    (place : range.At reader offset) (count : Nat) :
    range.At (reader.after count) (offset + count) := by
  obtain ⟨started, here⟩ := place
  constructor
  · rw [Reader.after_position]
    omega
  · rw [Reader.after_position]
    omega

namespace Decoder

section Programs

variable {decoder : Decoder} {range : CodeRange} {state : Decoding} {session after : Session}
  {offset : Nat}

theorem currentOffset_run (place : range.At state.reader offset) (short : offset < 0x100000000)
    (session : Session) :
    ((currentOffset range).run state).run.run session = (.ok (offset, state), session) := by
  change ((if range.base + (state.reader.position - range.start) < 0x100000000 then
      pure (range.base + (state.reader.position - range.start))
    else throw (.malformed ("Virtual offset overflow at " ++
      toString (state.reader.position - range.start))) : DecodeM Nat).run state).run.run session = _
  rw [place.here, if_pos short]
  rfl

/-- A guarded range is decrypted with its own key. -/
theorem openRange_run {passwords : PasswordStore} {password : String} {plain : Bytes}
    (store : decoder.passwords = some passwords)
    (known : passwords.get? decoder.token state.nextRange = some password)
    (ahead : state.reader.Ahead
      ((Cipher.Chain.Key.forRange password decoder.token state.nextRange).encrypt plain))
    (session : Session) :
    ((decoder.openRange plain.length).run state).run.run session =
      (.ok (plain, { state with
        reader := state.reader.after plain.length
        nextRange := state.nextRange + 1 }), session) := by
  have bytes := Reader.bytes_run ahead
  rw [Cipher.Chain.Key.length_encrypt] at bytes
  have read := @reading_run _ _ { state with nextRange := state.nextRange + 1 } _ _ bytes session
  simp only [openRange, StateT.run_bind, StateT.run_get, StateT.run_modify, pure_bind, store, known]
  rw [CilRecovery.run_bind_ok read, Cipher.Chain.Key.decrypt_encrypt]
  rfl

/-- Other bytes are read from their start, and then the reader is back where it was. -/
theorem within_run {operation : DecodeM α} {plain : Bytes} {value : α} {between : Decoding}
    (ends : (operation.run { state with
      reader := { Reader.ofBytes plain state.reader.profiles with active := .instruction }
      }).run.run session = (.ok (value, between), after)) :
    ((within plain operation).run state).run.run session =
      (.ok (value, { between with reader := state.reader }), after) := by
  change ((operation >>= fun result => do
    modify fun inner => { inner with reader := state.reader }
    return result : DecodeM α).run _).run.run session = _
  rw [run_bind_ok ends]
  rfl

theorem decodeFrom_end (past : range.finish ≤ offset) (state : Decoding) (session : Session) :
    ((decoder.decodeFrom range offset).run state).run.run session =
      (.ok (false, state), session) := by
  rw [decodeFrom, dif_neg (Nat.not_lt.mpr past)]
  rfl

/-- The decoder passes over an instruction, writes its line and goes on behind it. -/
theorem decodeFrom_item (short : range.finish < 0x100000000) {item : VirtualItem decoder.catalog}
    {content : Option (OpCode × RawOperand)}
    (ahead : state.reader.Ahead (item.encode state.reader.profile))
    (means : item.meaning? decoder.resolver session = some (content, after))
    (place : range.At state.reader offset) (room : offset + item.size ≤ range.finish)
    (inside : state.reader.position + item.size < 0x10000000000000000) :
    ((decoder.decodeFrom range offset).run state).run.run session =
      ((decoder.decodeFrom range (offset + item.size)).run
        { state with
          reader := state.reader.after item.size
          body := Line.write state.body ⟨offset, content⟩ }).run.run after := by
  have positive := item.size_pos
  rw [decodeFrom, dif_pos (by omega), bind_assoc,
    run_bind_ok (decodeOne_run ahead (by omega) inside means range offset)]
  simp only [pure_bind, Bool.false_eq_true, if_false]
  rw [run_bind_ok (currentOffset_run (place.after item.size) (by omega) after),
    dif_pos (by omega)]

/-- The decoder passes over a guarded range whose plain text it decodes to the end, and goes on
behind it. -/
theorem decodeFrom_guarded (short : range.finish < 0x100000000) {entry : decoder.catalog.Entry}
    (is : entry.opcode.kind = .special .chainBoundary)
    (takesWord : entry.opcode.operand.virtualWidth? = some 4) {passwords : PasswordStore}
    {password : String} {plain : Bytes} (store : decoder.passwords = some passwords)
    (known : passwords.get? decoder.token state.nextRange = some password)
    (small : plain.length < 0x80000000)
    (ahead : state.reader.Ahead (entry.encode state.reader.profile ++
      ((state.reader.profile.get .four).encode plain.length ++
        (Cipher.Chain.Key.forRange password decoder.token state.nextRange).encrypt plain)))
    (place : range.At state.reader offset) (room : offset + 6 + plain.length ≤ range.finish)
    {between : Decoding}
    (decoded : ((decoder.decodeFrom ⟨offset + 6, plain.length, 0⟩ (offset + 6)).run
      { reader := { Reader.ofBytes plain state.reader.profiles with active := .instruction }
        body := state.body.skip offset
        nextRange := state.nextRange + 1 }).run.run session = (.ok (false, between), after)) :
    ((decoder.decodeFrom range offset).run state).run.run session =
      ((decoder.decodeFrom range (offset + 6 + plain.length)).run
        { between with reader := state.reader.after (6 + plain.length) }).run.run after := by
  rw [← List.append_assoc] at ahead
  have cipher := ahead.right
  rw [List.length_append, Catalog.Entry.encode, Profile.length_encode, Profile.length_encode]
    at cipher
  have opened := @openRange_run decoder { state with reader := state.reader.after 6 } _ _ _
    store known cipher session
  have base := @currentOffset_run range { state with reader := state.reader.after 6 } _
    (place.after 6) (by omega) session
  have next := @currentOffset_run range
    { between with reader := state.reader.after (6 + plain.length) } _
    (place.after (6 + plain.length)) (by omega) after
  rw [decodeFrom, dif_pos (by omega), bind_assoc,
    run_bind_ok (decodeOne_guarded is takesWord small ahead.left range offset)]
  simp only [bind_assoc]
  rw [run_bind_ok base, dif_pos (by omega)]
  simp only [bind_assoc]
  rw [run_bind_ok opened, run_bind_ok (modifyBody_run _ _ _), run_bind_ok (within_run decoded)]
  simp only [Bool.false_eq_true, if_false, Reader.after_after, Nat.add_assoc]
  rw [run_bind_ok next, dif_pos (by omega)]

/-- The decoder passes over an encoded program, writes its lines and goes on behind it. -/
theorem decodeFrom_run {passwords : PasswordStore} (store : decoder.passwords = some passwords)
    (short : range.finish < 0x100000000) {program : VirtualProgram decoder.catalog} {code : Bytes}
    (active : state.reader.active = .instruction)
    (encoded : program.encode? state.reader.profiles.instruction passwords decoder.token
      state.nextRange = some code)
    {lines : List Line}
    (means : program.meaning? decoder.resolver offset session = some (lines, after))
    (place : range.At state.reader offset) (room : offset + program.size ≤ range.finish)
    (inside : state.reader.position + program.size < 0x10000000000000000)
    (ahead : state.reader.Ahead code) :
    ((decoder.decodeFrom range offset).run state).run.run session =
      ((decoder.decodeFrom range (offset + program.size)).run
        { reader := state.reader.after program.size
          body := lines.foldl Line.write state.body
          nextRange := state.nextRange + program.ranges }).run.run after := by
  induction program generalizing range state session after offset code lines with
  | done =>
    cases means
    rfl
  | next item rest ih =>
    obtain ⟨tail, behind, rfl⟩ := VirtualProgram.exists_of_encode?_next encoded
    obtain ⟨content, between, others, first, second, rfl⟩ :=
      VirtualProgram.exists_of_meaning?_next means
    rw [VirtualProgram.size] at room inside
    have profile : state.reader.profile = state.reader.profiles.instruction :=
      congrArg state.reader.profiles.get active
    have here := ahead.left
    rw [← profile] at here
    have later := ahead.right
    rw [VirtualItem.length_encode] at later
    have position : (state.reader.after item.size).position + rest.size < 0x10000000000000000 := by
      rw [Reader.after_position]
      omega
    rw [decodeFrom_item short here first place (by omega) (by omega),
      @ih _ { state with
        reader := state.reader.after item.size
        body := Line.write state.body ⟨offset, content⟩ } _ _ _ short _ active behind _ second
        (place.after item.size) (by omega) position later]
    simp only [VirtualProgram.size, VirtualProgram.ranges, Reader.after_after, Nat.add_assoc,
      List.foldl_cons]
  | guarded entry is takesWord inner rest ihInner ihRest =>
    obtain ⟨password, plain, tail, known, within, behind, small, rfl⟩ :=
      VirtualProgram.exists_of_encode?_guarded encoded
    obtain ⟨insideLines, between, others, first, second, rfl⟩ :=
      VirtualProgram.exists_of_meaning?_guarded means
    have length : plain.length = inner.size := VirtualProgram.length_encode? within
    rw [VirtualProgram.size] at room inside
    rw [← List.append_assoc, ← List.append_assoc] at ahead
    have here := ahead.left
    have profile : state.reader.profile = state.reader.profiles.instruction :=
      congrArg state.reader.profiles.get active
    rw [← profile, List.append_assoc] at here
    have later := ahead.right
    rw [List.length_append, List.length_append, Catalog.Entry.encode, Profile.length_encode,
      Profile.length_encode, Cipher.Chain.Key.length_encrypt, length] at later
    -- The inner program fills its range, so decoding it comes to the end of the range.
    have decoded := @ihInner ⟨offset + 6, plain.length, 0⟩
      { reader := { Reader.ofBytes plain state.reader.profiles with active := .instruction }
        body := state.body.skip offset
        nextRange := state.nextRange + 1 } session between (offset + 6)
      (by simp only [CodeRange.finish]; omega) plain rfl within insideLines first
      ⟨Nat.zero_le _, rfl⟩ (by simp only [CodeRange.finish]; omega)
      (by simp only [Reader.position, Reader.ofBytes, Reader.ofStream]; omega)
      (Reader.ahead_ofBytes plain state.reader.profiles)
    have ended := decoded.trans (decodeFrom_end (by simp only [CodeRange.finish]; omega) _ between)
    have position : (state.reader.after (6 + inner.size)).position + rest.size <
        0x10000000000000000 := by
      rw [Reader.after_position]
      omega
    rw [decodeFrom_guarded short is takesWord store known small here place (by omega) ended,
      length, Nat.add_assoc,
      @ihRest _
        { reader := state.reader.after (6 + inner.size)
          body := insideLines.foldl Line.write (state.body.skip offset)
          nextRange := state.nextRange + 1 + inner.ranges } _ _ _ short _ active behind _
        (by rw [← Nat.add_assoc]; exact second) (place.after (6 + inner.size)) (by omega) position later]
    simp only [VirtualProgram.size, VirtualProgram.ranges, Reader.after_after, Nat.add_assoc,
      List.foldl_cons, List.foldl_append]
    rfl

/-- Decoding an encoded program writes its lines. -/
theorem decode_run {reader : Reader} {passwords : PasswordStore}
    (store : decoder.passwords = some passwords) {program : VirtualProgram decoder.catalog}
    {code : Bytes}
    (encoded : program.encode? reader.profiles.instruction passwords decoder.token 0 = some code)
    {lines : List Line}
    (means : program.meaning? decoder.resolver 0 session = some (lines, after))
    (short : code.length < 0x100000000)
    (inside : reader.position + code.length < 0x10000000000000000) (ahead : reader.Ahead code) :
    (decoder.decode reader code.length).run.run session =
      (.ok ((Listing.written code.length lines).settle,
        { reader.after code.length with active := .instruction }), after) := by
  have length : code.length = program.size := VirtualProgram.length_encode? encoded
  have decoded := @decodeFrom_run decoder ⟨0, code.length, reader.position⟩
    { reader := { reader with active := .instruction }, body := { length := code.length } }
    session after 0 passwords store (by simpa [CodeRange.finish] using short) program code rfl
    encoded lines means ⟨Nat.le_refl _, by simp [Reader.position]⟩
    (by simp only [CodeRange.finish]; omega) (by rw [← length]; exact inside) ahead
  have ended := decoded.trans (decodeFrom_end (by simp only [CodeRange.finish]; omega) _ after)
  rw [decode, CilRecovery.run_bind_ok ended, length]
  rfl

/-- Decoding and linking an encoded program gives back its instructions. Decoding comes to the end
of the code, and the offset of each item has the number of instructions before it as its label.
Linking succeeds exactly if every branch goes to an item at or behind which an instruction
stands. -/
theorem decode_link_program {reader : Reader} {passwords : PasswordStore}
    (store : decoder.passwords = some passwords) {program : VirtualProgram decoder.catalog}
    {code : Bytes}
    (encoded : program.encode? reader.profiles.instruction passwords decoder.token 0 = some code)
    {lines : List Line}
    (means : program.meaning? decoder.resolver 0 session = some (lines, after))
    (short : code.length < 0x100000000)
    (inside : reader.position + code.length < 0x10000000000000000) (ahead : reader.Ahead code) :
    ∃ body,
      (decoder.decode reader code.length).run.run session =
        (.ok (body, { reader.after code.length with active := .instruction }), after) ∧
      body.stop = none ∧ body.length = code.length ∧
      body.instructions = Listing.instructions lines ∧
      (∀ offset, body.index? offset =
        if offset ∈ Listing.offsets lines then some (Listing.before lines offset) else none) ∧
      ∀ fixed, body.fixBranches = .ok fixed ↔
        (∀ line ∈ lines, ∀ target ∈ line.targets, Listing.Lands lines target) ∧
          fixed = { body with instructions := Listing.linked (Listing.before lines) lines } := by
  have rising := VirtualProgram.rising_of_meaning? means
  refine ⟨(Listing.written code.length lines).settle,
    decode_run store encoded means short inside ahead, ?_, ?_, ?_, ?_, ?_⟩
  · exact Listing.stop_written code.length lines
  · exact Listing.length_written code.length lines
  · exact Listing.instructions_written code.length lines
  · exact Listing.index?_settle_written rising
  · exact Listing.fixBranches_settle_written rising

end Programs

end Decoder

namespace NestedRanges

def text : VirtualOpcode := ⟨0x0101, .inlineString, .cil .ldstr, ⟨0⟩⟩

def branch : VirtualOpcode := ⟨0x0102, .inlineBrTarget, .cil .br, ⟨0⟩⟩

def return_ : VirtualOpcode := ⟨0x0103, .inlineNone, .cil .ret, ⟨0⟩⟩

def boundary : VirtualOpcode := ⟨0x0111, .inlineI, .special .chainBoundary, ⟨0⟩⟩

def idle : VirtualOpcode := ⟨0x0112, .inlineI, .special .noEffect, ⟨0⟩⟩

def profile : Profile :=
  { Profile.identity with
    two := ⟨[1, 0], by decide⟩
    four := ⟨[2, 0, 3, 1], by decide⟩
    width_two := rfl
    width_four := rfl }

def passwords : PasswordStore := .ofList [⟨⟨0x06000001⟩, none, "key"⟩]

/-- A decoder for two kinds of brackets and a text at the start of the operand records. -/
def decoder : Decoder where
  catalog := { opcodes := [text, branch, return_, boundary, idle] }
  resolver := { stream := { base := .memory [5, 2, 0x68, 0x69] } }
  token := ⟨0x06000001⟩
  passwords := some passwords

/-- A range inside a range, one beside it, and a branch from the first into the second. -/
def program : VirtualProgram decoder.catalog :=
  .guarded ⟨boundary, by decide, by decide⟩ rfl rfl
    (.guarded ⟨boundary, by decide, by decide⟩ rfl rfl
      (.next (.cil ⟨text, by decide, by decide⟩ .ldstr rfl (.reference 0 rfl)) .done)
      (.next (.cil ⟨branch, by decide, by decide⟩ .br rfl (.target 30)) .done))
    (.guarded ⟨boundary, by decide, by decide⟩ rfl rfl
      (.next (.noEffect ⟨idle, by decide, by decide⟩ rfl (.plain [1, 2, 3, 4] rfl)) .done)
      (.next (.cil ⟨return_, by decide, by decide⟩ .ret rfl .none) .done))

def lines : List Line :=
  [⟨0, none⟩, ⟨6, none⟩, ⟨12, some (.ldstr, .ready (.string "hi"))⟩, ⟨18, some (.br, .target 30)⟩,
    ⟨24, none⟩, ⟨30, none⟩, ⟨36, some (.ret, .ready .none)⟩]

def session : Session := { host := { name := "Sample" } }

theorem decode_link_ranges :
    ∃ code after, program.encode? profile passwords ⟨0x06000001⟩ 0 = some code ∧
      program.meaning? decoder.resolver 0 session = some (lines, after) ∧
      ∃ body,
        (decoder.decode (Reader.ofBytes code { instruction := profile }) code.length).run.run
          session =
        (.ok (body, { (Reader.ofBytes code { instruction := profile }).after code.length with
          active := .instruction }), after) ∧
        body.fixBranches = .ok { body with instructions :=
          [⟨.ldstr, .string "hi", some 12⟩, ⟨.br, .target 2, some 18⟩, ⟨.ret, .none, some 36⟩] } := by
  obtain ⟨code, encoded⟩ : ∃ code, program.encode? profile passwords ⟨0x06000001⟩ 0 = some code :=
    Option.isSome_iff_exists.mp (by decide +kernel)
  have means : program.meaning? decoder.resolver 0 session =
      some (lines, { session with memo := ⟨[(0, some (.string "hi"))]⟩ }) := by decide +kernel
  have length : code.length = 38 := VirtualProgram.length_encode? encoded
  have inside : (Reader.ofBytes code { instruction := profile }).position + code.length <
      0x10000000000000000 := by
    rw [Reader.ofBytes_position, length]
    decide
  obtain ⟨body, decoded, _, _, _, _, linked⟩ := @Decoder.decode_link_program decoder session _
    (Reader.ofBytes code { instruction := profile }) passwords rfl program code encoded lines means
    (by omega) inside (Reader.ahead_ofBytes code _)
  exact ⟨code, _, encoded, means, body, decoded, (linked _).mpr ⟨by decide, rfl⟩⟩

end NestedRanges

end CilRecovery
