import CilRecovery.Proofs.Bounds

/-!
The operands of decoded instructions. A catalog holds each opcode in the form that goes with its
operand type; so whatever bytes are decoded, every instruction gets an operand of the kind that its
own opcode calls for.
-/
namespace CilRecovery

namespace Operand

/-- Whether an operand is of the kind that goes with an operand type of an opcode. -/
def suits (opcode : OpCode) : InlineOperand → Operand → Bool
  | .inlineNone, none => true
  | .inlineI, immediate (.int32 _) => true
  | .inlineI8, immediate (.int64 _) => true
  | .inlineR, immediate (.float64 _) => true
  | .shortInlineR, immediate (.float32 _) => true
  | .inlineBrTarget, target _ => true
  | .shortInlineBrTarget, target _ => true
  | .inlineSwitch, switch _ => true
  | .inlineString, string _ => true
  | .inlineType, type _ => true
  | .inlineField, field _ => true
  | .inlineMethod, method _ => true
  | .inlineTok, token (.string _) => false
  | .inlineTok, token _ => true
  | .shortInlineI, immediate (.int8 _) => opcode == .ldcI4S
  | .shortInlineI, immediate (.uint8 _) => opcode != .ldcI4S
  | .inlineVar, argument index => opcode.indexesArguments && index < 0x10000
  | .inlineVar, .local index => !opcode.indexesArguments && index < 0x10000
  | .shortInlineVar, argument index => opcode.indexesArguments && index < 0x100
  | .shortInlineVar, .local index => !opcode.indexesArguments && index < 0x100
  | _, _ => false

/-- Whether an operand is of the kind that an opcode calls for. -/
def fits (opcode : OpCode) (operand : Operand) : Bool := operand.suits opcode opcode.operand

theorem fits_of {opcode : OpCode} {kind : InlineOperand} {operand : Operand}
    (is : opcode.operand = kind) (suits : operand.suits opcode kind = true) :
    operand.fits opcode = true := by
  rw [fits, is]
  exact suits

end Operand

/-! ### Catalogs -/

namespace OpCode

/-- The form for an operand type is its own form for it. -/
theorem formFor_formFor (op : OpCode) (operand : InlineOperand) :
    (op.formFor operand).formFor operand = op.formFor operand := by
  -- No opcode is in two pairs, so both forms of a pair lead back to the pair.
  have apart : ∀ pair ∈ forms, ∀ short : Bool, forms.find? (fun other =>
      other.1 == (if short then pair.2 else pair.1) ||
        other.2 == (if short then pair.2 else pair.1)) = some pair := by decide
  cases found : forms.find? fun pair => pair.1 == op || pair.2 == op with
  | none =>
    have same : op.formFor operand = op := by rw [formFor, found]
    rw [same, same]
  | some pair =>
    have form : op.formFor operand = if operand.isShort then pair.2 else pair.1 := by
      rw [formFor, found]
    have back := apart pair (List.mem_of_find?_eq_some found) operand.isShort
    rw [form, formFor, back]

end OpCode

/-- A virtual opcode whose CIL opcode is in the form for its operand type and calls for operands of
that type. -/
def VirtualOpcode.Apt (opcode : VirtualOpcode) : Prop :=
  ∀ cil, opcode.kind = .cil cil → cil.formFor opcode.operand = cil ∧ cil.operand = opcode.operand

/-- Whether a rule is only for opcodes that take one word. -/
def HandlerRule.isForWords (rule : HandlerRule) : Bool :=
  !rule.operands.isEmpty && rule.operands.all fun operand => operand.virtualWidth? == some 4

theorem HandlerRule.virtualWidth?_of_accepts {context : MatchContext} {rule : HandlerRule}
    (words : rule.isForWords = true) {operand : InlineOperand}
    (accepts : (rule.entry context).accepts operand = true) : operand.virtualWidth? = some 4 := by
  obtain ⟨nonempty, each⟩ := Bool.and_eq_true_iff.mp words
  rw [Bool.not_eq_true'] at nonempty
  rw [CatalogEntry.accepts, HandlerRule.operands_entry, nonempty, Bool.false_or] at accepts
  exact beq_iff_eq.mp (List.all_eq_true.mp each operand (List.contains_iff_mem.mp accepts))

/-- The rules for packed calls and guarded ranges are for words. -/
theorem HandlerTable.isForWords_of_mem {rule : HandlerRule} (mem : rule ∈ rules) {role : Special}
    (kind : rule.kind = .special role) (acts : role ≠ .noEffect) : rule.isForWords = true := by
  have all : rules.all (fun rule => rule.isForWords ||
      (rule.kind != .special .packedCall && rule.kind != .special .chainBoundary)) = true := by
    decide +kernel
  have words := List.all_eq_true.mp all rule mem
  rw [kind] at words
  cases role with
  | noEffect => exact absurd rfl acts
  | packedCall | chainBoundary => simpa using words

namespace Catalog

variable {entries : List CatalogEntry}

theorem mem_of_get?_eq_some {catalog : Catalog} {code : UInt32} {opcode : VirtualOpcode}
    (found : catalog.get? code = some opcode) : opcode ∈ catalog.opcodes :=
  List.mem_of_find?_eq_some found

theorem classifyBy_cil {body : List Instruction} {operand : InlineOperand} {cil : OpCode}
    (is : classifyBy entries body operand = .cil cil) :
    cil.formFor operand = cil ∧ cil.operand = operand := by
  rw [classifyBy] at is
  dsimp only at is
  split at is
  · cases is
  · split at is
    · split at is
      · rename_i opcode _ fits
        cases is
        exact ⟨opcode.formFor_formFor operand, fits⟩
      · cases is
    · rename_i other
      exact absurd is (other cil)

/-- An opcode that is no CIL opcode comes from an entry for its operand type. -/
theorem classifyBy_special {body : List Instruction} {operand : InlineOperand} {role : Special}
    (is : classifyBy entries body operand = .special role) :
    ∃ entry ∈ entries, entry.kind = .special role ∧ entry.accepts operand = true := by
  rw [classifyBy] at is
  dsimp only at is
  split at is
  · cases is
  · rename_i entry found
    have accepts := List.find?_some found
    split at is
    · split at is <;> cases is
    · exact ⟨entry, List.mem_of_find?_eq_some found, is, (Bool.and_eq_true_iff.mp accepts).1⟩

/-- What stands in a catalog was classified, or is unidentified. -/
theorem exists_classifyBy_of_buildBy {host : Host} {rows : List HandlerRow} {noticed : Nat}
    {catalog : Catalog} (built : buildBy host entries rows noticed = .ok catalog)
    {opcode : VirtualOpcode} (member : opcode ∈ catalog.opcodes) :
    opcode.kind = .unidentified ∨
      ∃ body, opcode.kind = classifyBy entries body opcode.operand := by
  rw [buildBy] at built
  split at built
  · cases built
  · obtain ⟨opcodes, collected, built⟩ := exists_of_bind_eq_ok built
    rw [ofOpcodes] at built
    split at built
    · cases built
    · cases built
      have classified : .ok opcode ∈ rows.map (classifyRow host entries) := by
        rw [collect_eq_ok_iff.mp collected]
        exact List.mem_map_of_mem member
      obtain ⟨row, _, is⟩ := List.mem_map.mp classified
      obtain ⟨operand, _, is⟩ := exists_of_bind_eq_ok is
      cases is
      dsimp only
      split
      · rename_i body _
        exact .inr ⟨body, rfl⟩
      · exact .inl rfl

theorem apt_of_buildBy {host : Host} {rows : List HandlerRow} {noticed : Nat} {catalog : Catalog}
    (built : buildBy host entries rows noticed = .ok catalog) :
    ∀ opcode ∈ catalog.opcodes, opcode.Apt := by
  intro opcode member cil is
  rcases exists_classifyBy_of_buildBy built member with not | ⟨body, classified⟩
  · cases is.symm.trans not
  · exact classifyBy_cil (classified.symm.trans is)

/-- A packed call or a guarded range in a catalog takes a word. -/
theorem isRefused_of_build {context : MatchContext} {rows : List HandlerRow} {noticed : Nat}
    {catalog : Catalog} (built : build context rows noticed = .ok catalog) :
    ∀ opcode ∈ catalog.opcodes, opcode.isRefused = false := by
  intro opcode member
  have word {role : Special} (acts : role ≠ .noEffect) (is : opcode.kind = .special role) :
      opcode.operand.virtualWidth? = some 4 := by
    rcases exists_classifyBy_of_buildBy built member with not | ⟨body, classified⟩
    · cases is.symm.trans not
    · obtain ⟨entry, mem, same, accepts⟩ := classifyBy_special (classified.symm.trans is)
      obtain ⟨rule, tried, rfl⟩ := List.mem_map.mp mem
      have words := HandlerTable.isForWords_of_mem tried same acts
      exact HandlerRule.virtualWidth?_of_accepts words accepts
  rw [VirtualOpcode.isRefused, VirtualOpcode.takesWord]
  split
  · rename_i call
    rw [word (by decide) call]
    rfl
  · rename_i boundary
    rw [word (by decide) boundary]
    rfl
  · rfl

end Catalog

/-! ### Reading -/

/-- An instruction whose operand is of the kind that its opcode calls for, or will be once it is
looked up. -/
def RawItem.Fits : RawItem → Prop
  | plain opcode operand => operand.initial.fits opcode = true
  | reference opcode operand _ => opcode.operand = operand
  | _ => True

theorem Decoder.slot_suits (opcode : OpCode) (index : Nat) :
    (slot opcode index).suits opcode .inlineVar = decide (index < 0x10000) ∧
      (slot opcode index).suits opcode .shortInlineVar = decide (index < 0x100) := by
  rw [slot]
  cases args : opcode.indexesArguments <;> simp [Operand.suits, args]

/-- If no opcode is refused, no instruction is. -/
theorem RawItem.Of.ne_refused {head : ItemHead} {item : RawItem} (is : item.Of head)
    (taken : ∀ opcode, head.opcode = some opcode → opcode.isRefused = false) (code : UInt16)
    (operand : InlineOperand) : item ≠ .refused code operand := by
  rintro rfl
  cases known : head.opcode with
  | none =>
    rw [RawItem.Of, known] at is
    cases is
  | some opcode =>
    have refused : opcode.isRefused = true := is.tells known
    exact Bool.false_ne_true ((taken opcode known).symm.trans refused)

namespace Reader

/-- The operand that is read for a CIL opcode is of the kind that it calls for. -/
theorem cilItem_fits {opcode : OpCode} {operand : InlineOperand} (is : opcode.operand = operand)
    (targets : Nat) (reader : Reader) :
    Reaches (cilItem opcode operand targets) reader (fun item _ => item.Fits) fun _ _ => True := by
  cases operand with
  | inlineNone => exact .pure (Operand.fits_of is rfl)
  | inlineVar =>
    refine .any_bind fun value _ => .pure (Operand.fits_of is ?_)
    exact (Decoder.slot_suits opcode value.toNat).1.trans (decide_eq_true value.toNat_lt)
  | shortInlineVar =>
    refine .any_bind fun value _ => .pure (Operand.fits_of is ?_)
    exact (Decoder.slot_suits opcode value.toNat).2.trans (decide_eq_true value.toNat_lt)
  | shortInlineI =>
    rw [cilItem]
    split
    · rename_i signed
      exact .any_bind fun _ _ => .pure (Operand.fits_of is (beq_iff_eq.mpr signed))
    · rename_i unsigned
      exact .any_bind fun _ _ => .pure (Operand.fits_of is (bne_iff_ne.mpr unsigned))
  | inlineString | inlineType | inlineField | inlineMethod | inlineTok | inlineSig =>
    exact .any_bind fun _ _ => .pure is
  | _ => exact .any_bind fun _ _ => .pure (Operand.fits_of is rfl)

theorem itemRest_fits {head : ItemHead} (apt : ∀ opcode, head.opcode = some opcode → opcode.Apt)
    (reader : Reader) :
    Reaches (itemRest head) reader (fun item _ => item.Fits) fun _ _ => True := by
  rw [itemRest]
  split
  · exact .pure True.intro
  · rename_i opcode known
    split
    · exact .pure True.intro
    · split
      · exact .any_bind fun _ _ => .pure True.intro
      · exact .any_bind fun _ _ => .pure True.intro
      · exact .any_bind fun _ _ => .pure True.intro
      · exact .any_bind fun _ _ => .pure True.intro
      · rename_i cil is
        obtain ⟨form, takes⟩ := apt opcode known cil is
        rw [form]
        exact cilItem_fits takes _ _

/-- What holds of the rest of an instruction, whatever opcode of the catalog is at its head, holds
of every instruction that is read. -/
theorem item_reaches_of_rest {catalog : Catalog} {holds : RawItem → Prop}
    (rest : ∀ head : ItemHead, (∀ opcode, head.opcode = some opcode → opcode ∈ catalog.opcodes) →
      ∀ between, Reaches (itemRest head) between (fun item _ => holds item) fun _ _ => True)
    (reader : Reader) :
    Reaches (item catalog) reader (fun item _ => holds item) fun _ _ => True := by
  refine .bind <| (itemHead_reaches catalog reader).mono (fun head between ⟨known, _⟩ => ?_)
    fun _ _ _ => True.intro
  refine rest head (fun opcode is => ?_) between
  exact Catalog.mem_of_get?_eq_some (known.symm.trans is)

/-- What is read with the opcodes of a catalog fits. -/
theorem item_fits {catalog : Catalog} (apt : ∀ opcode ∈ catalog.opcodes, opcode.Apt)
    (reader : Reader) :
    Reaches (item catalog) reader (fun item _ => item.Fits) fun _ _ => True :=
  item_reaches_of_rest (fun _ from_ => itemRest_fits fun opcode is => apt opcode (from_ opcode is))
    reader

/-- If no opcode of a catalog is refused, no instruction that is read is. -/
theorem item_ne_refused {catalog : Catalog}
    (taken : ∀ opcode ∈ catalog.opcodes, opcode.isRefused = false) (reader : Reader) (code : UInt16)
    (operand : InlineOperand) : result (item catalog) reader ≠ .ok (.refused code operand) := by
  have reaches : Reaches (item catalog) reader (fun item _ => item ≠ .refused code operand)
      fun _ _ => True := by
    refine item_reaches_of_rest (fun head from_ between => ?_) reader
    refine (itemRest_reaches head between).mono (fun item _ is => ?_) fun _ _ _ => True.intro
    exact is.ne_refused (fun opcode known => taken opcode (from_ opcode known)) code operand
  have ends := reaches.ends
  rw [result]
  generalize (item catalog).run.run reader = outcome at ends
  obtain ⟨result, after⟩ := outcome
  rintro rfl
  exact ends rfl

end Reader

/-! ### Writing -/

/-- A call at an offset, with the method that is called. -/
def Instruction.IsCallAt (offset : Nat) (instruction : Instruction) : Prop :=
  instruction.virtualOffset = some offset ∧
    (instruction.opcode = .call ∨ instruction.opcode = .callvirt) ∧
    ∃ method, instruction.operand = .method method

/-- A body has got more instructions, each of them a placeholder or with a fitting operand. -/
def DecodedBody.GrowsFitly (before after : DecodedBody) : Prop :=
  ∃ more, after.instructions = before.instructions ++ more ∧
    ∀ instruction ∈ more, instruction.isPlaceholder = false →
      instruction.operand.fits instruction.opcode = true

namespace DecodedBody

theorem GrowsFitly.of_eq {before after : DecodedBody}
    (same : after.instructions = before.instructions) : before.GrowsFitly after :=
  ⟨[], by rw [same, List.append_nil], by simp⟩

theorem GrowsFitly.of_snoc {before after : DecodedBody} {instruction : Instruction}
    (one : after.instructions = before.instructions ++ [instruction])
    (fits : instruction.isPlaceholder = false →
      instruction.operand.fits instruction.opcode = true) : before.GrowsFitly after :=
  ⟨[instruction], one, by simpa using fits⟩

instance : IsPreorder DecodedBody GrowsFitly where
  refl _ := .of_eq rfl
  trans := by
    rintro first second third ⟨front, before, fitting⟩ ⟨back, behind, fitting'⟩
    refine ⟨front ++ back, by rw [behind, before, List.append_assoc], ?_⟩
    exact List.forall_mem_append.mpr ⟨fitting, fitting'⟩

theorem GrowsFitly.mem {before after : DecodedBody} (grows : before.GrowsFitly after)
    {instruction : Instruction} (member : instruction ∈ before.instructions) :
    instruction ∈ after.instructions := by
  obtain ⟨more, whole, _⟩ := grows
  rw [whole]
  exact List.mem_append_left _ member

end DecodedBody

namespace Decoder

/-- What is looked up for an operand type is of its kind. -/
theorem referenceAt_fits (resolver : Resolver) {opcode : OpCode} {operand : InlineOperand}
    (is : opcode.operand = operand) (position : UInt32) (state : Decoding) :
    Ensures (referenceAt resolver opcode operand position) state fun value after =>
      value.fits opcode = true ∧ after.body = state.body := by
  have wrap {α : Type} {operation : DecodeM α} (keeps : Keeps operation) (make : α → Operand)
      (suits : ∀ value, (make value).suits opcode operand = true) :
      Ensures (operation >>= fun value => pure (make value)) state
        fun operand after => operand.fits opcode = true ∧ after.body = state.body :=
    .bind <| (keeps state).mono fun value _ kept => .pure ⟨Operand.fits_of is (suits value), kept⟩
  cases operand with
  | inlineString => exact wrap (keeps_stringAt resolver position) .string fun _ => rfl
  | inlineType =>
    exact .bind (.resolving fun found => wrap (keeps_require _ position found) .type fun _ => rfl)
  | inlineField =>
    exact .bind (.resolving fun found => wrap (keeps_require _ position found) .field fun _ => rfl)
  | inlineMethod =>
    exact .bind (.resolving fun found => wrap (keeps_require _ position found) .method fun _ => rfl)
  | inlineTok =>
    refine .bind (.bind (.resolving fun found => ?_))
    split
    · exact .throw
    · exact .throw
    · rename_i member other
      refine .pure (.pure ⟨Operand.fits_of is ?_, rfl⟩)
      cases member with
      | string text => exact (other text rfl).elim
      | _ => rfl
  | _ => exact .throw

theorem emitRaw_grows (offset : Nat) {opcode : OpCode} {operand : RawOperand}
    (fits : operand.initial.fits opcode = true) (state : Decoding) :
    Ensures (emitRaw offset opcode operand) state fun _ after =>
      state.body.GrowsFitly after.body := by
  refine .modifyBody (.of_snoc (?_ : _ = state.body.instructions ++
    [{ opcode, operand := operand.initial, virtualOffset := some offset }]) fun _ => fits)
  cases operand <;> rfl

theorem act_grows (decoder : Decoder) (range : CodeRange) (offset : Nat) {item : RawItem}
    (fits : item.Fits) (state : Decoding) :
    Ensures (decoder.act range offset item) state fun _ after =>
      state.body.GrowsFitly after.body := by
  cases item with
  | unknown code =>
    exact .currentOffset_bind fun finish _ => .modifyBody_bind (.pure (.of_snoc rfl nofun))
  | unidentified code =>
    refine .currentOffset_bind fun finish _ => ?_
    dsimp only
    split
    · exact .bind .throw
    · exact .modifyBody_bind (.pure (.of_snoc rfl nofun))
  | noEffect => exact .modifyBody_bind (.pure (.of_eq rfl))
  | refused code operand => exact .throw
  | packedCall position =>
    refine .bind (.resolving fun found => ?_)
    split
    · exact .throw
    · rename_i method isVirtual
      refine .modifyBody_bind (.pure (.of_snoc rfl fun _ => ?_))
      cases isVirtual <;> rfl
  | chainBoundary size =>
    rw [act]
    split
    · exact .bind .throw
    · exact .pure (.of_eq rfl)
  | plain opcode operand =>
    exact .bind <| (emitRaw_grows offset fits state).mono fun _ _ grows => .pure grows
  | reference opcode operand position =>
    refine .bind <| (referenceAt_fits decoder.resolver fits position state).mono ?_
    rintro value between ⟨found, same⟩
    rw [← same]
    exact .bind <| (@emitRaw_grows offset opcode (.ready value) found between).mono fun _ _ grows =>
      .pure grows

/-- A packed call becomes a call. -/
theorem act_packedCall (decoder : Decoder) (range : CodeRange) (offset : Nat) (position : UInt32)
    (state : Decoding) :
    Ensures (decoder.act range offset (.packedCall position)) state fun _ after =>
      ∃ instruction ∈ after.body.instructions, instruction.IsCallAt offset := by
  refine .bind (.resolving fun found => ?_)
  split
  · exact .throw
  · rename_i method isVirtual
    have last {list : List Instruction} {a : Instruction} : a ∈ list ++ [a] := by simp
    refine .modifyBody_bind (.pure ⟨_, last, rfl, ?_, method, rfl⟩)
    cases isVirtual
    · exact .inl rfl
    · exact .inr rfl

end Decoder

namespace Spot

variable {decoder : Decoder} {spot : Spot} {decoded : Decoded} {after : Decoding} {last : Session}

theorem growsFitly_of_one (apt : ∀ opcode ∈ decoder.catalog.opcodes, opcode.Apt)
    (ends : spot.one decoder = (.ok (decoded, after), last)) :
    spot.state.body.GrowsFitly after.body := by
  obtain ⟨item, reader, read, acts⟩ := exists_item_of_one ends
  have fits := (Reader.item_fits apt spot.state.reader).ends
  rw [read] at fits
  exact Decoder.act_grows decoder spot.range spot.offset fits { spot.state with reader }
    spot.session decoded after last acts

theorem isCallAt_of_one {head : ItemHead} {opcode : VirtualOpcode}
    (announced : spot.head decoder = .ok head) (known : head.opcode = some opcode)
    (kind : opcode.kind = .special .packedCall)
    (ends : spot.one decoder = (.ok (decoded, after), last)) :
    ∃ instruction ∈ after.body.instructions, instruction.IsCallAt spot.offset := by
  obtain ⟨item, reader, read, acts⟩ := exists_item_of_one ends
  have reached := (Reader.item_reaches decoder.catalog spot.state.reader).ends
  rw [read] at reached
  obtain ⟨head', announced', is, _⟩ := reached
  cases announced.symm.trans announced'
  rw [RawItem.Of, known] at is
  dsimp only at is
  split at is
  · subst is
    cases acts
  · rw [kind] at is
    obtain ⟨position, rfl⟩ := is
    exact Decoder.act_packedCall decoder spot.range spot.offset position { spot.state with reader }
      spot.session decoded after last acts

end Spot

/-- Whatever is decoded with a catalog that was built from a handler table, by whatever tests of the
handlers, every instruction has an operand of the kind that its opcode calls for, and every packed
call becomes a call. With the table of rules of its own, no packed call and no guarded range is ever
refused for its operand. -/
theorem Decoder.decode_typed {decoder : Decoder} {host : Host} {entries : List CatalogEntry}
    {rows : List HandlerRow} {noticed : Nat}
    (built : Catalog.buildBy host entries rows noticed = .ok decoder.catalog) (reader : Reader)
    (length : Nat) (session : Session) :
    ∃ visited, Course decoder (.start reader length session) visited
        ((Spot.start reader length session).outcome decoder) ∧
      (∀ body after last,
        (decoder.decode reader length).run.run session = (.ok (body, after), last) →
        (∀ instruction ∈ body.instructions, instruction.isPlaceholder = false →
          instruction.operand.fits instruction.opcode = true) ∧
        ∀ spot ∈ visited, ∀ head opcode, spot.head decoder = .ok head →
          head.opcode = some opcode → opcode.kind = .special .packedCall →
            ∃ instruction ∈ body.instructions, instruction.IsCallAt spot.offset) ∧
      (∀ context rows noticed, Catalog.build context rows noticed = .ok decoder.catalog →
        (∀ code opcode, decoder.catalog.get? code = some opcode → opcode.takesWord = true →
          ∀ shown, expectWord shown opcode.operand = pure ()) ∧
        ∀ spot ∈ visited, ∀ code operand,
          Reader.result (Reader.item decoder.catalog) spot.state.reader ≠
            .ok (.refused code operand)) := by
  obtain ⟨visited, course⟩ := Spot.exists_course decoder (.start reader length session)
  refine ⟨visited, course, ?_, fun context rows noticed own => ⟨?_, ?_⟩⟩
  · intro body after last ends
    obtain ⟨stopped, state, ended, rfl, _⟩ := exists_of_decode_eq_ok ends
    have apt := Catalog.apt_of_buildBy built
    obtain ⟨⟨more, whole, fits⟩, others⟩ :=
      course.relates (Spot.growsFitly_of_one apt) (fun _ _ => .of_eq rfl) ended
    constructor
    · intro instruction member
      have member : instruction ∈ state.body.instructions := member
      rw [whole] at member
      exact fits instruction member
    · intro spot mem head opcode announced known kind
      obtain ⟨_, _, _, one, later⟩ := others spot mem
      obtain ⟨instruction, there, is⟩ := Spot.isCallAt_of_one announced known kind one
      exact ⟨instruction, later.mem there, is⟩
  · intro code opcode found takes shown
    have taken := Catalog.isRefused_of_build own opcode (Catalog.mem_of_get?_eq_some found)
    rw [expectWord, VirtualOpcode.virtualWidth?_of_takesWord takes taken]
    rfl
  · intro spot _ code operand
    exact Reader.item_ne_refused (Catalog.isRefused_of_build own) spot.state.reader code operand

namespace CallAndBranch

def machine : TypeSig := .named false (.top .local "Sample" "Machine")

def methodOf (name : String) : MethodRef := ⟨machine, name, { ret := .void }, []⟩

def anchors : Anchors :=
  ⟨methodOf "Push", methodOf "Pop", methodOf "Jump", ⟨machine, "locals", none⟩,
    ⟨machine, "arguments", none⟩⟩

/-- A handler that passes its operand to one call. -/
def handler (sig : TypeSig) (callee : MethodRef) : List Instruction :=
  [⟨.ldarg0, .none, none⟩, ⟨.ldarg1, .none, none⟩, ⟨.unboxAny, .type sig, none⟩,
    ⟨.call, .method callee, none⟩, ⟨.ret, .none, none⟩]

/-- A module with a handler of calls, one of branches, and the helper that unpacks calls. -/
def host : Host where
  name := "Sample"
  tokens := ⟨[(⟨0x06000001⟩, .method (methodOf "Main"))]⟩
  methodTokens := ⟨[(methodOf "Unpack", ⟨0x06000004⟩)]⟩
  bodies := ⟨[(⟨0x06000002⟩, handler (.primitive .i4) (methodOf "Unpack")),
    (⟨0x06000003⟩, handler (.primitive .u4) (methodOf "Jump")),
    (⟨0x06000004⟩, [⟨.ldcI4, .immediate (.int32 0x3FFFFFFF), none⟩, ⟨.and, .none, none⟩])]⟩

def rows : List HandlerRow :=
  [⟨7, InlineOperand.virtualCode .inlineI, ⟨0x06000002⟩⟩,
    ⟨8, InlineOperand.virtualCode .shortInlineBrTarget, ⟨0x06000003⟩⟩]

def catalog : Catalog :=
  { opcodes := [⟨7, .inlineI, .special .packedCall, ⟨0x06000002⟩⟩,
      ⟨8, .shortInlineBrTarget, .cil .brS, ⟨0x06000003⟩⟩] }

/-- A token at position 0, and a virtual call of what it stands for at position 5. -/
def decoder : Decoder where
  catalog := catalog
  resolver := { stream := { base := .memory [0, 1, 0, 0, 6, 4, 0, 0, 0, 0x80] } }
  token := ⟨0x06000001⟩

def code : Bytes := [7, 0, 5, 0, 0, 0, 8, 0, 0, 0, 0, 0, 9, 0]

theorem decode_typed_call : ∃ body after last,
    (decoder.decode (.ofBytes code {}) 14).run.run { host } = (.ok (body, after), last) ∧
      body.instructions.map (fun instruction => (instruction.opcode, instruction.operand)) =
        [(.callvirt, .method (methodOf "Main")), (.brS, .target 0), (.nop, .placeholder 9)] ∧
      ∀ instruction ∈ body.instructions, instruction.isPlaceholder = false →
        instruction.operand.fits instruction.opcode = true := by
  have built : Catalog.buildWith ⟨host, anchors⟩ HandlerTable.rules rows = .ok decoder.catalog := by
    decide +kernel
  have instructions : (((decoder.decode (.ofBytes code {}) 14).run.run { host }).1.toOption.map
      fun outcome => outcome.1.instructions.map fun instruction =>
        (instruction.opcode, instruction.operand)) =
      some [(.callvirt, .method (methodOf "Main")), (.brS, .target 0), (.nop, .placeholder 9)] := by
    decide +kernel
  obtain ⟨visited, course, typed, _⟩ := Decoder.decode_typed built (.ofBytes code {}) 14 { host }
  cases ends : (decoder.decode (.ofBytes code {}) 14).run.run { host } with
  | mk result last =>
    rw [ends] at instructions
    cases result with
    | error e => cases instructions
    | ok outcome =>
      obtain ⟨body, after⟩ := outcome
      exact ⟨body, after, last, rfl, Option.some.inj instructions, (typed body after last ends).1⟩

end CallAndBranch

end CilRecovery
