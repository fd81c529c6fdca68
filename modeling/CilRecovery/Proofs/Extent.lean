import CilRecovery.Proofs.Cursors
import CilRecovery.Proofs.Items

/-!
How far reading goes. Operations that pass over a fixed number of bytes end behind them whatever the
stream, and depend on nothing but them.
-/
namespace CilRecovery

/-- Whether reading failed: the data ended too soon, or the stream under the reader failed. -/
def Error.isUnread : Error → Bool
  | outOfBounds | io _ => true
  | _ => false

namespace Stream

theorem Blocks.readAt_short (position count : Nat) (blocks : Blocks) :
    Reaches (readAt position count) blocks (fun bytes _ => bytes.length ≤ count)
      fun _ _ => True := by
  refine .get_bind ?_
  dsimp only
  split
  · exact .pure (Nat.zero_le _)
  · refine .bind <| Reaches.trivial.mono (fun found _ _ => ?_) fun _ _ => id
    cases found with
    | none => exact .pure (Nat.zero_le _)
    | some place =>
      refine .bind <| Reaches.trivial.mono (fun payload _ _ => .pure ?_) fun _ _ => id
      rw [Bytes.slice, List.length_take]
      omega

namespace View

theorem readBase_short (count : Nat) (view : View) :
    Reaches (readBase count) view (fun bytes _ => bytes.length ≤ count) fun _ _ => True := by
  refine .get_bind ?_
  split
  · refine .pure ?_
    rw [Bytes.slice, List.length_take]
    omega
  · rename_i blocks _
    have short := (Blocks.readAt_short view.cursor.position count blocks).ends
    dsimp only
    generalize (Blocks.readAt view.cursor.position count).run.run blocks = outcome at short
    obtain ⟨result, after⟩ := outcome
    refine .set_bind ?_
    cases result with
    | ok bytes => exact .pure short
    | error cause => exact .throw trivial

theorem read_short (count : Nat) (view : View) :
    Reaches (read count) view (fun bytes _ => bytes.length ≤ count) fun _ _ => True := by
  refine .get_bind <| .bind <| (readBase_short count view).mono (fun bytes _ short => ?_)
    fun _ _ => id
  refine .modify_bind (.pure ?_)
  rwa [length_unmask]

theorem readUpTo_short (count : Nat) (view : View) :
    Reaches (readUpTo count) view (fun bytes _ => bytes.length ≤ count) fun _ _ => True := by
  induction count using Nat.strongRecOn generalizing view with
  | ind count ih =>
    rw [readUpTo]
    split
    · refine .bind <| (read_short count view).mono (fun bytes between short => ?_) fun _ _ => id
      split
      · refine .bind <| (ih (count - bytes.length) (by omega) between).mono
          (fun more _ rest => .pure ?_) fun _ _ => id
        rw [List.length_append]
        omega
      · exact .pure (Nat.zero_le _)
    · exact .pure (Nat.zero_le _)

/-- Whatever the stream, an exact read moves the cursor by what was asked for. -/
theorem position_of_readExact {view after : View} {count : Nat} {bytes : Bytes}
    (ends : (readExact count).run.run view = (.ok bytes, after)) :
    after.cursor.position = view.cursor.position + count := by
  rw [readExact, run_bind] at ends
  cases upTo : (readUpTo count).run.run view with
  | mk result between =>
    rw [upTo] at ends
    cases result with
    | error e => cases ends
    | ok whole =>
      have moved := position_of_readUpTo upTo
      have short := (readUpTo_short count view).ends
      rw [upTo] at short
      dsimp only at ends short
      split at ends
      · cases ends
      · cases ends
        omega

end View

end Stream

namespace Reader

/-- A reader of a stream that is in order sees the text of the stream. -/
structure Sees (reader : Reader) (text : Bytes) : Prop where
  inOrder : reader.view.stream.Same reader.view.stream
  is : reader.view.stream.text reader.view.cursor.rule = text

theorem sees_of_shows {reader : Reader} {plain : Bytes} (shown : reader.view.Shows plain) :
    reader.Sees plain := by
  obtain ⟨⟨⟨base, maskKey⟩, cursor⟩, profiles, active⟩ := reader
  obtain ⟨data, memory, is⟩ := shown
  cases memory
  exact ⟨⟨.memory data, rfl⟩, is⟩

/-- A reader sees the text of a stream that was just opened. -/
theorem sees_ofStream {resource : Stream.Resource} {stream : Stream.Layered}
    (opened : resource.openLayers = .ok stream) (rule : Cipher.CounterRule) (profiles : Profiles) :
    (ofStream stream rule profiles).Sees
      (Cipher.plaintext stream.maskKey rule resource.plain) := by
  obtain ⟨inOrder, plain⟩ := Stream.Resource.same_openLayers opened
  exact ⟨inOrder, by rw [← plain]; rfl⟩

/-- The reader after it has passed over some bytes. It still sees and shows what it did. -/
structure Passed (before after : Reader) (count : Nat) : Prop where
  position : after.position = before.position + count
  profiles : after.profiles = before.profiles
  active : after.active = before.active
  shows : ∀ plain, before.view.Shows plain → after.view.Shows plain
  sees : ∀ text, before.Sees text → after.Sees text

theorem Passed.zero (reader : Reader) : reader.Passed reader 0 :=
  ⟨rfl, rfl, rfl, fun _ => id, fun _ => id⟩

theorem Passed.trans {first second third : Reader} {count count' : Nat}
    (now : first.Passed second count) (later : second.Passed third count') :
    first.Passed third (count + count') where
  position := by rw [later.position, now.position, Nat.add_assoc]
  profiles := later.profiles.trans now.profiles
  active := later.active.trans now.active
  shows plain shown := later.shows plain (now.shows plain shown)
  sees text seen := later.sees text (now.sees text seen)

/-- Two readers in memory that stand at one position and see the same up to another. -/
structure Twin (bound : Nat) (one other : Reader) : Prop where
  position : other.position = one.position
  profiles : other.profiles = one.profiles
  active : other.active = one.active
  shown : ∃ plain plain', one.view.Shows plain ∧ other.view.Shows plain' ∧
    plain'.take bound = plain.take bound

/-- Two readers, of whatever streams, that stand at one position and see the same from there up to
another. -/
structure Agrees (bound : Nat) (one other : Reader) : Prop where
  position : other.position = one.position
  profiles : other.profiles = one.profiles
  active : other.active = one.active
  seen : ∃ text text', one.Sees text ∧ other.Sees text' ∧
    ∀ place, one.position ≤ place → place < bound → text'[place]? = text[place]?

theorem Twin.agrees {bound : Nat} {one other : Reader} (twin : Twin bound one other) :
    Agrees bound one other := by
  obtain ⟨plain, plain', shown, shown', same⟩ := twin.shown
  refine ⟨twin.position, twin.profiles, twin.active, plain, plain', sees_of_shows shown,
    sees_of_shows shown', fun place _ inside => ?_⟩
  rw [← List.getElem?_take_of_lt inside, same, List.getElem?_take_of_lt inside]

theorem Agrees.passed {bound count : Nat} {one one' other other' : Reader}
    (agrees : Agrees bound one other) (passed : one.Passed one' count)
    (passed' : other.Passed other' count) : Agrees bound one' other' := by
  obtain ⟨text, text', seen, seen', same⟩ := agrees.seen
  refine ⟨?_, ?_, ?_, text, text', passed.sees text seen, passed'.sees text' seen', ?_⟩
  · rw [passed.position, passed'.position, agrees.position]
  · rw [passed.profiles, passed'.profiles, agrees.profiles]
  · rw [passed.active, passed'.active, agrees.active]
  · intro place from_ inside
    rw [passed.position] at from_
    exact same place (by omega) inside

/-- An operation that never goes back and, as far as it succeeds, depends only on what it
passes. -/
structure Local (operation : ReadM α) : Prop where
  forth : ∀ reader value after, operation.run.run reader = (.ok value, after) →
    reader.position ≤ after.position
  mirrored : ∀ bound one other value after, Agrees bound one other →
    operation.run.run one = (.ok value, after) → after.position ≤ bound →
      ∃ after', operation.run.run other = (.ok value, after') ∧ Agrees bound after after'

/-- An operation that passes over a fixed number of bytes and depends on nothing but them and the
position. If it reads them, memory holds them whenever it succeeds. -/
structure Spans (operation : ReadM α) (count : Nat) (reads : Bool) : Prop where
  reaches : ∀ reader, Reaches operation reader
    (fun _ after => reader.Passed after count ∧
      (reads = true → 0 < count → ∀ plain, reader.view.Shows plain →
        reader.position + count ≤ plain.length))
    (fun e _ => e.isUnread = true ∧ ∀ plain, reader.view.Shows plain →
      plain.length < reader.position + count ∨ 0x10000000000000000 ≤ reader.position + count)
  isLocal : Local operation

theorem isUnread_ofFault (fault : Stream.Fault) : (ofFault fault).isUnread = true := by
  cases fault <;> rfl

/-- What becomes of an operation on the stream. -/
theorem onView_run_eq (operation : Stream.ViewM α) (reader : Reader) :
    (onView operation).run.run reader =
      ((operation.run.run reader.view).1.mapError ofFault,
        { reader with view := (operation.run.run reader.view).2 }) := by
  rw [onView, run_get_bind]
  generalize operation.run.run reader.view = outcome
  obtain ⟨result, view⟩ := outcome
  cases result <;> rfl

/-- An exact read from memory. -/
theorem bytes_run_eq {reader : Reader} {plain : Bytes} (shown : reader.view.Shows plain)
    (count : Nat) :
    (bytes count).run.run reader =
      if (plain.slice reader.position count).length < count then
        (.error .outOfBounds, reader.after (plain.slice reader.position count).length)
      else (.ok (plain.slice reader.position count),
        reader.after (plain.slice reader.position count).length) := by
  have upTo := Stream.View.readUpTo_run shown count
  rw [bytes, onView_run_eq, Stream.View.readExact, run_bind_ok upTo]
  change _ = if (plain.slice reader.view.cursor.position count).length < count then _ else _
  split <;> rfl

/-- To read nothing always succeeds. -/
theorem bytes_zero_run (reader : Reader) : (bytes 0).run.run reader = (.ok [], reader) := by
  rw [bytes, onView_run_eq, Stream.View.readExact, Stream.View.readUpTo]
  rfl

theorem slice_eq_of_getElem? {text text' : Bytes} {bound position count : Nat}
    (same : ∀ place, position ≤ place → place < bound → text'[place]? = text[place]?)
    (inside : position + count ≤ bound) :
    text'.slice position count = text.slice position count := by
  apply List.ext_getElem?
  intro place
  rw [Bytes.slice, Bytes.slice, List.getElem?_take, List.getElem?_take]
  split
  · rw [List.getElem?_drop, List.getElem?_drop]
    exact same _ (Nat.le_add_right _ _) (by omega)
  · rfl

/-- What is read exactly is the next part of the text, and the text stays the same. -/
theorem bytes_sees {reader : Reader} {text : Bytes} (seen : reader.Sees text) (count : Nat) :
    Reaches (bytes count) reader
      (fun value after => value = text.slice reader.position count ∧ value.length = count ∧
        after.Sees text)
      (fun _ _ => (text.slice reader.position count).length < count) := by
  have reached := (Stream.View.readExact_slice seen.inOrder count).ends
  rw [seen.is] at reached
  constructor
  rw [bytes, onView_run_eq]
  generalize (Stream.View.readExact count).run.run reader.view = outcome at reached
  obtain ⟨result, view⟩ := outcome
  cases result with
  | error fault => exact reached.2.1
  | ok value =>
    obtain ⟨same, rule, is, whole⟩ := reached
    refine ⟨is, whole, same.right, ?_⟩
    change view.stream.text view.cursor.rule = text
    rw [rule, same.text, seen.is]

theorem passed_of_bytes {reader after : Reader} {count : Nat} {value : Bytes}
    (ends : (bytes count).run.run reader = (.ok value, after)) : reader.Passed after count := by
  have read := ends
  rw [bytes, onView_run_eq] at read
  cases outcome : (Stream.View.readExact count).run.run reader.view with
  | mk result view =>
    rw [outcome] at read
    cases result with
    | error fault => cases read
    | ok bytes =>
      cases read
      refine ⟨Stream.View.position_of_readExact outcome, rfl, rfl, fun plain shown => ?_,
        fun text seen => ?_⟩
      · rw [bytes_run_eq shown] at ends
        split at ends
        · cases ends
        · rw [← (Prod.mk.inj ends).2]
          exact shown.after _
      · have reached := (bytes_sees seen count).ends
        rw [ends] at reached
        exact reached.2.2

theorem local_bytes (count : Nat) : Local (bytes count) where
  forth reader value after ends := by
    rw [(passed_of_bytes ends).position]
    exact Nat.le_add_right _ _
  mirrored bound one other value after agrees ends inside := by
    have passed := passed_of_bytes ends
    rw [passed.position] at inside
    obtain ⟨text, text', seen, seen', same⟩ := agrees.seen
    have reached := (bytes_sees seen count).ends
    have reached' := (bytes_sees seen' count).ends
    rw [ends] at reached
    obtain ⟨is, whole, _⟩ := reached
    rw [agrees.position, slice_eq_of_getElem? same inside, ← is] at reached'
    cases outcome : (bytes count).run.run other with
    | mk result after' =>
      rw [outcome] at reached'
      cases result with
      | error e => exact absurd whole (Nat.ne_of_lt reached')
      | ok value' =>
        refine ⟨after', by rw [reached'.1], ?_⟩
        exact agrees.passed passed (passed_of_bytes outcome)

theorem spans_bytes (count : Nat) : Spans (bytes count) count true where
  reaches reader := by
    constructor
    cases ends : (bytes count).run.run reader with
    | mk result after =>
      cases result with
      | ok value =>
        refine ⟨passed_of_bytes ends, fun _ some_ plain shown => ?_⟩
        rw [bytes_run_eq shown] at ends
        split at ends
        · cases ends
        · rename_i enough
          rw [Bytes.slice, List.length_take, List.length_drop] at enough
          omega
      | error e =>
        refine ⟨?_, fun plain shown => .inl ?_⟩
        · rw [bytes, onView_run_eq] at ends
          generalize ((Stream.View.readExact count).run.run reader.view).1 = result at ends
          cases result with
          | ok value => cases ends
          | error fault =>
            cases ends
            exact isUnread_ofFault fault
        · rw [bytes_run_eq shown] at ends
          split at ends
          · rename_i short
            rw [Bytes.slice, List.length_take, List.length_drop] at short
            omega
          · cases ends
  isLocal := local_bytes count

/-- A skip out of the range of positions fails. -/
theorem skip_run_error {reader : Reader} {count : Nat} (small : count < 0x8000000000000000)
    (outside : 0x10000000000000000 ≤ reader.position + count) :
    (skip count).run.run reader =
      (.error (ofFault (if reader.view.stream.blocks?.isSome then .blockSeekRange else .seekRange)),
        reader) := by
  have target : ¬ (0 ≤ (reader.view.cursor.position : Int) + count ∧
      (reader.view.cursor.position : Int) + count < 0x10000000000000000) := by
    have outside : 0x10000000000000000 ≤ reader.view.cursor.position + count := outside
    omega
  have sought : (Stream.View.seek .current count).run.run reader.view =
      (.error (if reader.view.stream.blocks?.isSome then .blockSeekRange else .seekRange),
        reader.view) := by
    rw [Stream.View.seek, run_get_bind, if_neg target]
    split <;> rfl
  rw [skip, if_neg (Nat.not_le.mpr small)]
  change (onView (Stream.View.seek .current count) >>= fun _ => pure ()).run.run reader = _
  refine run_bind_error ?_
  rw [onView_run_eq, sought]
  rfl

theorem passed_after (reader : Reader) (count : Nat) : reader.Passed (reader.after count) count :=
  ⟨rfl, rfl, rfl, fun _ shown => shown.after count, fun _ seen => ⟨seen.inOrder, seen.is⟩⟩

/-- Whether a skip succeeds depends on the position alone. -/
theorem local_skip (count : Nat) (small : count < 0x8000000000000000) : Local (skip count) := by
  have moved (reader : Reader) (value : Unit) (after : Reader)
      (ends : (skip count).run.run reader = (.ok value, after)) :
      reader.position + count < 0x10000000000000000 ∧ after = reader.after count := by
    by_cases inside : reader.position + count < 0x10000000000000000
    · rw [skip_run reader small inside] at ends
      exact ⟨inside, (Prod.mk.inj ends).2.symm⟩
    · rw [skip_run_error small (Nat.not_lt.mp inside)] at ends
      cases ends
  constructor
  · intro reader value after ends
    obtain ⟨_, rfl⟩ := moved reader value after ends
    exact Nat.le_add_right _ _
  · intro bound one other value after agrees ends _
    obtain ⟨inside, rfl⟩ := moved one value after ends
    refine ⟨other.after count, skip_run other small (by rwa [agrees.position]), ?_⟩
    exact agrees.passed (passed_after one count) (passed_after other count)

namespace Local

theorem pure (value : α) : Local (Pure.pure value : ReadM α) where
  forth reader _ after ends := by
    cases ends
    exact Nat.le_refl _
  mirrored bound one other _ after agrees ends _ := by
    cases ends
    exact ⟨other, rfl, agrees⟩

theorem ofProfile (f : Profile → α) : Local (do return f (← get).profile : ReadM α) where
  forth reader _ after ends := by
    cases ends
    exact Nat.le_refl _
  mirrored bound one other _ after agrees ends _ := by
    cases ends
    refine ⟨other, ?_, agrees⟩
    change (Except.ok (f other.profile), other) = (Except.ok (f one.profile), other)
    rw [profile, profile, agrees.profiles, agrees.active]

theorem bind {first : ReadM α} {next : α → ReadM β} (now : Local first)
    (later : ∀ value reader after, first.run.run reader = (.ok value, after) → Local (next value)) :
    Local (first >>= next) := by
  constructor
  · intro reader result after ends
    obtain ⟨value, between, first_, second⟩ := exists_of_run_bind_eq_ok ends
    exact Nat.le_trans (now.forth reader value between first_)
      ((later value reader between first_).forth between result after second)
  · intro bound one other result after agrees ends inside
    obtain ⟨value, between, first_, second⟩ := exists_of_run_bind_eq_ok ends
    have nexts := later value one between first_
    have within := Nat.le_trans (nexts.forth between result after second) inside
    obtain ⟨between', first', agrees'⟩ :=
      now.mirrored bound one other value between agrees first_ within
    obtain ⟨after', second', agrees''⟩ :=
      nexts.mirrored bound between between' result after agrees' second inside
    exact ⟨after', by rw [run_bind_ok first', second'], agrees''⟩

end Local

namespace Spans

variable {count count' : Nat} {reads reads' : Bool}

theorem of_ok {operation : ReadM α} (spans : Spans operation count reads) {reader after : Reader}
    {value : α} (ends : operation.run.run reader = (.ok value, after)) :
    reader.Passed after count ∧ (reads = true → 0 < count → ∀ plain, reader.view.Shows plain →
      reader.position + count ≤ plain.length) := by
  have reached := (spans.reaches reader).ends
  rwa [ends] at reached

theorem pure (value : α) : Spans (Pure.pure value : ReadM α) 0 true where
  reaches reader := .pure ⟨.zero reader, fun _ some_ => absurd some_ (by decide)⟩
  isLocal := .pure value

/-- What only asks for the profile in force passes over nothing. -/
theorem ofProfile (f : Profile → α) :
    Spans (do return f (← get).profile : ReadM α) 0 true where
  reaches reader := .get_bind (.pure ⟨.zero reader, fun _ some_ => absurd some_ (by decide)⟩)
  isLocal := .ofProfile f

theorem bind {first : ReadM α} {next : α → ReadM β} (now : Spans first count reads)
    (later : ∀ value, Spans (next value) count' reads') :
    Spans (first >>= next) (count + count') (reads && reads') where
  reaches reader := by
    refine .bind <| (now.reaches reader).mono ?_ ?_
    · rintro value between ⟨passed, held⟩
      refine ((later value).reaches between).mono ?_ ?_
      · rintro result after ⟨passed', held'⟩
        refine ⟨passed.trans passed', fun both some_ plain shown => ?_⟩
        obtain ⟨read, read'⟩ := Bool.and_eq_true_iff.mp both
        rcases Nat.eq_zero_or_pos count' with nothing | more
        · have inside := held read (by omega) plain shown
          omega
        · have inside := held' read' more plain (passed.shows plain shown)
          rw [passed.position] at inside
          omega
      · rintro e after ⟨unread, short⟩
        refine ⟨unread, fun plain shown => ?_⟩
        have short := short plain (passed.shows plain shown)
        rw [passed.position] at short
        omega
    · rintro e after ⟨unread, short⟩
      refine ⟨unread, fun plain shown => ?_⟩
      have short := short plain shown
      omega
  isLocal := now.isLocal.bind fun value _ _ _ => (later value).isLocal

theorem map {first : ReadM α} (now : Spans first count reads) (f : α → β) :
    Spans (do return f (← first) : ReadM β) count reads := by
  have both := now.bind fun value => pure (f value)
  rwa [Nat.add_zero, Bool.and_true] at both

theorem bytes (count : Nat) : Spans (bytes count) count true := spans_bytes count

theorem number (width : Width) : Spans (number width) width.bytes true :=
  (bytes width.bytes).bind fun bytes => ofProfile fun profile => (profile.get width).decode bytes

theorem u8 : Spans u8 1 true := (bytes 1).map _

theorem i8 : Spans i8 1 true := u8.map _

theorem u16 : Spans u16 2 true := (number .two).map _

theorem u32 : Spans u32 4 true := (number .four).map _

theorem i32 : Spans i32 4 true := u32.map _

theorem u64 : Spans u64 8 true := (number .eight).map _

theorem i64 : Spans i64 8 true := u64.map _

theorem repeated {element : ReadM α} (each : Spans element count true) (times : Nat) :
    Spans (repeated element times) (count * times) true := by
  induction times with
  | zero => exact pure []
  | succ times ih =>
    rw [Nat.mul_succ, Nat.add_comm (count * times)]
    exact each.bind fun _ => ih.map _

theorem skip (count : Nat) (small : count < 0x8000000000000000) :
    Spans (skip count) count false where
  reaches reader := by
    constructor
    by_cases inside : reader.position + count < 0x10000000000000000
    · rw [skip_run reader small inside]
      exact ⟨passed_after reader count, fun reads => absurd reads (by decide)⟩
    · rw [skip_run_error small (Nat.not_lt.mp inside)]
      exact ⟨isUnread_ofFault _, fun _ _ => .inr (Nat.not_lt.mp inside)⟩
  isLocal := local_skip count small

/-- The operand of a CIL opcode is read as wide as its type says. -/
theorem cilItem (opcode : OpCode) (operand : InlineOperand) (targets : Nat) :
    Spans (cilItem opcode operand targets) (operand.virtualWidth?.getD (4 * targets)) true := by
  cases operand with
  | inlineNone => exact pure _
  | inlineSwitch => exact (repeated u32 targets).map _
  | inlineI => exact i32.map _
  | inlineI8 => exact i64.map _
  | inlineR => exact u64.map _
  | shortInlineI =>
    rw [Reader.cilItem]
    split
    · exact i8.map _
    · exact u8.map _
  | inlineVar => exact u16.map _
  | shortInlineVar => exact u8.map _
  | inlineBrTarget | shortInlineBrTarget | shortInlineR | inlineString | inlineType | inlineField
  | inlineMethod | inlineTok | inlineSig => exact u32.map _

/-- The rest of an instruction is as wide as its head says. -/
theorem itemRest {head : ItemHead} (small : head.targets < 0x100000000) :
    Spans (itemRest head) head.left (!head.opcode.any VirtualOpcode.isSkipped) := by
  have skipped := skip head.left (ItemHead.left_lt small)
  obtain ⟨code, opcode, targets⟩ := head
  cases opcode with
  | none => exact pure _
  | some opcode =>
    rw [Option.any_some, VirtualOpcode.isSkipped]
    cases taken : opcode.isRefused with
    | true =>
      obtain ⟨takes, _⟩ := Bool.and_eq_true_iff.mp taken
      rw [VirtualOpcode.takesWord] at takes
      simp only [Reader.itemRest, ItemHead.left, taken, if_true]
      split at takes
      · rename_i kind
        rw [kind]
        exact pure _
      · rename_i kind
        rw [kind]
        exact pure _
      · cases takes
    | false =>
      have wide : ItemHead.left ⟨code, some opcode, targets⟩ =
          opcode.operand.virtualWidth?.getD (4 * targets) := by
        rw [ItemHead.left]
        simp only [taken, Bool.false_eq_true, if_false]
      simp only [Reader.itemRest, taken, Bool.false_eq_true, if_false]
      cases kind : opcode.kind with
      | unidentified => exact skipped.map fun _ => RawItem.unidentified code
      | cil cil =>
        rw [wide]
        exact cilItem _ opcode.operand targets
      | special role =>
        have word (takes : opcode.takesWord = true) :
            ItemHead.left ⟨code, some opcode, targets⟩ = 4 := by
          rw [wide, VirtualOpcode.virtualWidth?_of_takesWord takes taken, Option.getD_some]
        cases role with
        | noEffect => exact skipped.map fun _ => RawItem.noEffect
        | packedCall =>
          rw [word (by rw [VirtualOpcode.takesWord, kind])]
          exact u32.map _
        | chainBoundary =>
          rw [word (by rw [VirtualOpcode.takesWord, kind])]
          exact i32.map _

end Spans

/-- What is made of whatever has been read. -/
theorem made_reaches {operation : ReadM α} {make : α → β} {post : β → Prop}
    (is : ∀ value, post (make value)) (reader : Reader) :
    Reaches (do return make (← operation)) reader (fun result _ => post result) fun _ _ => True :=
  .bind <| Reaches.trivial.mono (fun value _ _ => .pure (is value)) fun _ _ => id

theorem cilItem_reaches (opcode : OpCode) (operand : InlineOperand) (targets : Nat)
    (reader : Reader) :
    Reaches (cilItem opcode operand targets) reader
      (fun item _ =>
        if operand.isReference then ∃ position, item = .reference opcode operand position
        else ∃ raw, item = .plain opcode raw)
      fun _ _ => True := by
  cases operand with
  | inlineNone => exact .pure ⟨_, rfl⟩
  | shortInlineI =>
    rw [cilItem]
    split
    · exact made_reaches (fun _ => ⟨_, rfl⟩) reader
    · exact made_reaches (fun _ => ⟨_, rfl⟩) reader
  | inlineBrTarget | shortInlineBrTarget | inlineSwitch | inlineI | inlineI8 | inlineR
  | shortInlineR | inlineVar | shortInlineVar | inlineString | inlineType | inlineField
  | inlineMethod | inlineTok | inlineSig =>
    exact made_reaches (fun _ => ⟨_, rfl⟩) reader

/-- What the rest of an instruction is, its head says. -/
theorem itemRest_reaches (head : ItemHead) (reader : Reader) :
    Reaches (itemRest head) reader (fun item _ => item.Of head) fun _ _ => True := by
  obtain ⟨code, opcode, targets⟩ := head
  cases opcode with
  | none => exact .pure rfl
  | some opcode =>
    simp only [itemRest, RawItem.Of]
    split
    · exact .pure rfl
    · cases opcode.kind with
      | unidentified =>
        exact .bind <| Reaches.trivial.mono (fun _ _ _ => .pure rfl) fun _ _ => id
      | cil cil => exact cilItem_reaches _ opcode.operand targets reader
      | special role =>
        cases role with
        | noEffect => exact .bind <| Reaches.trivial.mono (fun _ _ _ => .pure rfl) fun _ _ => id
        | packedCall | chainBoundary => exact made_reaches (fun _ => ⟨_, rfl⟩) reader

/-- The number of targets takes four bytes, if it is there. -/
theorem spans_itemHeadFor (catalog : Catalog) (code : UInt16) :
    Spans (itemHeadFor catalog code)
      (ItemHead.width ⟨code, catalog.get? code.toUInt32, 0⟩ - 2) true := by
  rw [itemHeadFor, ItemHead.width]
  dsimp only
  split
  · exact Spans.u32.map _
  · exact .pure _

theorem itemHeadFor_reaches (catalog : Catalog) (code : UInt16) (reader : Reader) :
    Reaches (itemHeadFor catalog code) reader
      (fun head _ => ∃ targets < 0x100000000, head = ⟨code, catalog.get? code.toUInt32, targets⟩)
      fun _ _ => True := by
  rw [itemHeadFor]
  dsimp only
  split
  · exact .bind <| Reaches.trivial.mono
      (fun targets _ _ => .pure ⟨targets.toNat, targets.toNat_lt, rfl⟩) fun _ _ => id
  · exact .pure ⟨0, by decide, rfl⟩

/-- The head of an instruction is read as a whole. -/
theorem itemHead_reaches (catalog : Catalog) (reader : Reader) :
    Reaches (itemHead catalog) reader
      (fun head after => head.opcode = catalog.get? head.code.toUInt32 ∧
        head.targets < 0x100000000 ∧ reader.Passed after head.width ∧
        ∀ plain, reader.view.Shows plain → reader.position + head.width ≤ plain.length)
      fun e _ => e.isUnread = true := by
  refine .bind <| (Spans.u16.reaches reader).mono ?_ fun _ _ => And.left
  rintro code between ⟨passed, held⟩
  have announced := (itemHeadFor_reaches catalog code between).ends
  have reached := ((spans_itemHeadFor catalog code).reaches between).ends
  constructor
  generalize (itemHeadFor catalog code).run.run between = outcome at announced reached
  obtain ⟨result, after⟩ := outcome
  cases result with
  | error e => exact reached.1
  | ok head =>
    obtain ⟨targets, small, rfl⟩ := announced
    obtain ⟨passed', held'⟩ := reached
    have wide : 2 ≤ ItemHead.width ⟨code, catalog.get? code.toUInt32, 0⟩ := by
      rw [ItemHead.width]
      split <;> decide
    have both := passed.trans passed'
    rw [Nat.add_sub_cancel' wide] at both
    refine ⟨rfl, small, both, fun plain shown => ?_⟩
    have first := held rfl (by decide) plain shown
    change reader.position + ItemHead.width ⟨code, catalog.get? code.toUInt32, 0⟩ ≤ plain.length
    rcases Nat.eq_zero_or_pos (ItemHead.width ⟨code, catalog.get? code.toUInt32, 0⟩ - 2) with
      nothing | more
    · omega
    · have second := held' rfl more plain (passed.shows plain shown)
      rw [passed.position] at second
      omega

theorem local_item (catalog : Catalog) : Local (item catalog) := by
  refine .bind (.bind Spans.u16.isLocal fun code _ _ _ =>
    (spans_itemHeadFor catalog code).isLocal) ?_
  intro head reader after ends
  have reached := (itemHead_reaches catalog reader).ends
  rw [ends] at reached
  exact (Spans.itemRest reached.2.1).isLocal

/-- An instruction ends where its head says. Memory holds its head and, if its operand is not merely
passed over, all of it. -/
theorem item_reaches (catalog : Catalog) (reader : Reader) :
    Reaches (item catalog) reader
      (fun item after => ∃ head, result (itemHead catalog) reader = .ok head ∧
        item.Of head ∧ reader.Passed after head.size ∧
        ∀ plain, reader.view.Shows plain → reader.position + head.width ≤ plain.length ∧
          (head.opcode.any VirtualOpcode.isSkipped = false →
            reader.position + head.size ≤ plain.length))
      (fun e _ => e.isUnread = true ∧ ∀ head, result (itemHead catalog) reader = .ok head →
        ∀ plain, reader.view.Shows plain → plain.length < reader.position + head.size ∨
          0x10000000000000000 ≤ reader.position + head.size) := by
  have reached := (itemHead_reaches catalog reader).ends
  constructor
  rw [item, run_bind, result]
  generalize (itemHead catalog).run.run reader = outcome at reached
  obtain ⟨ended, between⟩ := outcome
  cases ended with
  | error e => exact ⟨reached, fun head is => by cases is⟩
  | ok head =>
    obtain ⟨known, small, passed, held⟩ := reached
    have spans := (Spans.itemRest small).reaches between
    have is := (itemRest_reaches head between).ends
    have reached := spans.ends
    dsimp only
    generalize (itemRest head).run.run between = outcome at reached is
    obtain ⟨result, after⟩ := outcome
    cases result with
    | error e =>
      refine ⟨reached.1, fun _ same plain shown => ?_⟩
      cases same
      have short := reached.2 plain (passed.shows plain shown)
      rw [passed.position] at short
      rw [ItemHead.size]
      omega
    | ok item =>
      refine ⟨head, rfl, is, passed.trans reached.1, fun plain shown => ⟨held plain shown, ?_⟩⟩
      intro read
      have first := held plain shown
      rw [ItemHead.size]
      rcases Nat.eq_zero_or_pos head.left with nothing | more
      · omega
      · have second := reached.2 (by rw [read]; rfl) more plain (passed.shows plain shown)
        rw [passed.position] at second
        omega

end Reader

end CilRecovery
