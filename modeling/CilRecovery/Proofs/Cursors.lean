import CilRecovery.Proofs.Payload
import CilRecovery.Proofs.Reading

/-!
Cursors that share a stream. Whatever has been asked of the other cursors before, each reads one
fixed plain text at its own position and under its own counter rule.
-/
namespace CilRecovery

namespace Cipher

/-- The byte that a mask or none leaves at a position of some bytes. -/
def unmaskedAt? (maskKey : Option UInt32) (rule : CounterRule) (bytes : Bytes) (position : Nat) :
    Option UInt8 :=
  bytes[position]?.map fun byte =>
    match maskKey with
    | none => byte
    | some key => byte ^^^ (key ^^^ rule.counterAt (UInt64.ofNat position)).toUInt8

theorem getElem?_mask (key counter : UInt32) (bytes : Bytes) (place : Nat) :
    (mask key counter bytes)[place]? =
      bytes[place]?.map (· ^^^ (key ^^^ (counter + UInt32.ofNat place)).toUInt8) := by
  induction bytes generalizing counter place with
  | nil => simp [mask]
  | cons byte rest ih =>
    cases place with
    | zero => simp [mask]
    | succ place =>
      have shifted : counter + 1 + UInt32.ofNat place = counter + UInt32.ofNat (place + 1) := by
        rw [UInt32.ofNat_add, UInt32.add_assoc, UInt32.add_comm 1]
        rfl
      rw [mask, List.getElem?_cons_succ, List.getElem?_cons_succ, ih, shifted]

theorem getElem?_plaintext (maskKey : Option UInt32) (rule : CounterRule) (bytes : Bytes)
    (position : Nat) :
    (plaintext maskKey rule bytes)[position]? = unmaskedAt? maskKey rule bytes position := by
  cases maskKey with
  | none => simp [plaintext, unmaskedAt?]
  | some key =>
    rw [plaintext, getElem?_mask, unmaskedAt?, CounterRule.counterAt_ofNat]

end Cipher

namespace Stream

open Cipher (CounterRule)

/-- The plain text under the mask of a resource: its bytes, or what its blocks hold. -/
def Resource.plain (resource : Resource) : Bytes :=
  match resource.layers with
  | .blocks key :: _ => Blocks.plainOf key resource.data
  | _ => resource.data

/-- The same data, of which other blocks may have been decrypted. -/
inductive Base.Same : Base → Base → Prop where
  | memory (data : Bytes) : Same (.memory data) (.memory data)
  | blocks {before after : Blocks} (same : before.SameResource after) :
    Same (.blocks before) (.blocks after)

namespace Layered

/-- The plain text under the mask. -/
def plain (stream : Layered) : Bytes :=
  match stream.base with
  | .memory data => data
  | .blocks blocks => blocks.plain

/-- A block of the stream does not decrypt. -/
def IsBroken (stream : Layered) : Prop :=
  match stream.base with
  | .memory _ => False
  | .blocks blocks => blocks.IsBroken

/-- The blocks of the stream end early for some cause. -/
def BreaksWith (stream : Layered) (cause : Error) : Prop :=
  match stream.base with
  | .memory _ => False
  | .blocks blocks => blocks.BreaksWith cause

theorem BreaksWith.isBroken {stream : Layered} {cause : Error} (breaks : stream.BreaksWith cause) :
    stream.IsBroken := by
  obtain ⟨base, maskKey⟩ := stream
  cases base with
  | memory data => exact breaks
  | blocks blocks => exact Blocks.BreaksWith.isBroken breaks

/-- Some of the bytes at a position lie in blocks from the first that does not decrypt on, before
the end that the header announced. -/
structure Unreadable (stream : Layered) (position count : Nat) (cause : Error) : Prop where
  breaks : stream.BreaksWith cause
  wanted : 0 < count
  past : stream.plain.length < position + count
  announced : max position stream.plain.length < stream.length

/-- The fault in which an exact read ends that does not get all of its bytes. -/
inductive Stops (stream : Layered) (position count : Nat) : Fault → Prop
  | short (readable : ∀ cause, ¬ stream.Unreadable position count cause) :
    Stops stream position count .shortRead
  | unreadable {cause : Error} (unreadable : stream.Unreadable position count cause) :
    Stops stream position count (.layer cause)

/-- The same stream, of which other blocks may have been decrypted. -/
structure Same (before after : Layered) : Prop where
  base : before.base.Same after.base
  maskKey : after.maskKey = before.maskKey

theorem Same.length {before after : Layered} (same : before.Same after) :
    after.length = before.length := by
  obtain ⟨base, maskKey⟩ := before
  obtain ⟨base', maskKey'⟩ := after
  cases same.base with
  | memory data => rfl
  | blocks is => exact is.payloadLength

theorem Same.right {before after : Layered} (same : before.Same after) : after.Same after := by
  obtain ⟨base, maskKey⟩ := before
  obtain ⟨base', maskKey'⟩ := after
  refine ⟨?_, rfl⟩
  cases same.base with
  | memory data => exact .memory data
  | blocks is => exact .blocks is.sound.refl

/-- The text that is read under some counter rule. -/
def text (stream : Layered) (rule : CounterRule) : Bytes :=
  Cipher.plaintext stream.maskKey rule stream.plain

theorem Same.text {before after : Layered} (same : before.Same after) (rule : CounterRule) :
    after.text rule = before.text rule := by
  obtain ⟨base, maskKey⟩ := before
  obtain ⟨base', maskKey'⟩ := after
  cases same.maskKey
  cases same.base with
  | memory data => rfl
  | blocks is => simp only [Layered.text, Layered.plain, is.plain]

end Layered

/-- Adding a layer keeps what lies under the mask in order. -/
theorem Resource.same_addLayer {data : Bytes} {stream after : Layered} {layer : Layer}
    {outermost : Bool} (same : stream.Same stream)
    (adds : addLayer data outermost stream layer = .ok after) :
    after.Same after ∧ after.plain =
      match layer with
      | .blocks key => Blocks.plainOf key data
      | _ => stream.plain := by
  cases layer with
  | mask key =>
    rw [addLayer] at adds
    split at adds
    · cases adds
      exact ⟨⟨same.base, rfl⟩, rfl⟩
    · cases adds
  | blocks key =>
    rw [addLayer] at adds
    split at adds
    · obtain ⟨blocks, opened, adds⟩ := exists_of_bind_eq_ok adds
      cases adds
      obtain ⟨sound, plain⟩ := Blocks.ofResource_sound opened
      exact ⟨⟨.blocks sound.refl, rfl⟩, plain⟩
    · cases adds
  | chain key => cases adds

/-- Only the outermost layer decides what lies under the mask. -/
theorem Resource.same_foldlM {data : Bytes} {stream after : Layered} {layers : List Layer}
    (same : stream.Same stream) (adds : layers.foldlM (addLayer data false) stream = .ok after) :
    after.Same after ∧ after.plain = stream.plain := by
  induction layers generalizing stream with
  | nil =>
    cases adds
    exact ⟨same, rfl⟩
  | cons layer rest ih =>
    rw [List.foldlM_cons] at adds
    obtain ⟨between, first, adds⟩ := exists_of_bind_eq_ok adds
    obtain ⟨kept, plain⟩ := same_addLayer same first
    obtain ⟨last, is⟩ := ih kept adds
    refine ⟨last, is.trans ?_⟩
    cases layer with
    | blocks key => cases first
    | _ => exact plain

/-- An opened resource is in order and has the plain text of its bytes. -/
theorem Resource.same_openLayers {resource : Resource} {stream : Layered}
    (opened : resource.openLayers = .ok stream) :
    stream.Same stream ∧ stream.plain = resource.plain := by
  obtain ⟨data, layers⟩ := resource
  have memory : Layered.Same { base := .memory data } { base := .memory data } :=
    ⟨.memory data, rfl⟩
  cases layers with
  | nil =>
    cases opened
    exact ⟨memory, rfl⟩
  | cons layer rest =>
    obtain ⟨between, first, opened⟩ := exists_of_bind_eq_ok opened
    obtain ⟨kept, plain⟩ := same_addLayer memory first
    obtain ⟨last, is⟩ := same_foldlM kept opened
    refine ⟨last, is.trans ?_⟩
    rw [plain, Resource.plain]
    cases layer <;> rfl

namespace View

/-- What lies under the mask is read without moving the cursor. -/
theorem readBase_reaches {origin : Layered} {view : View} (same : origin.Same view.stream)
    (count : Nat) :
    Reaches (readBase count) view
      (fun bytes after => origin.Same after.stream ∧ after.cursor = view.cursor ∧
        bytes.length ≤ count ∧
        bytes = origin.plain.slice view.cursor.position bytes.length ∧
        (0 < count → view.cursor.position < origin.plain.length → bytes ≠ []) ∧
        (0 < count → view.cursor.position < origin.length → bytes = [] → ¬ origin.IsBroken))
      (fun fault after => origin.Same after.stream ∧ after.cursor = view.cursor ∧
        origin.plain.length ≤ view.cursor.position ∧
        ∃ cause, fault = .layer cause ∧
          origin.Unreadable view.cursor.position count cause) := by
  obtain ⟨⟨base, maskKey⟩, cursor⟩ := view
  obtain ⟨base', maskKey'⟩ := origin
  obtain ⟨sameBase, sameMask⟩ := same
  refine .get_bind ?_
  cases sameBase with
  | memory data =>
    refine .pure ⟨⟨.memory data, sameMask⟩, rfl, ?_, ?_, ?_, fun _ _ _ => id⟩
    · rw [Bytes.slice, List.length_take]
      omega
    · simp only [Layered.plain, Bytes.slice, List.length_take, List.length_drop]
      rw [List.take_eq_take_iff, List.length_drop]
      omega
    · intro wanted inside
      apply List.ne_nil_of_length_pos
      rw [Bytes.slice, List.length_take, List.length_drop]
      dsimp only [Layered.plain] at inside ⊢
      omega
  | @blocks before after is =>
    have reaches := (Blocks.readAt_reaches is.sound cursor.position count).ends
    dsimp only
    generalize (Blocks.readAt cursor.position count).run.run after = outcome at reaches
    obtain ⟨result, final⟩ := outcome
    refine .set_bind ?_
    cases result with
    | ok bytes =>
      obtain ⟨again, short, slice, progress, whole⟩ := reaches
      rw [is.plain] at slice progress
      rw [is.payloadLength, is.isBroken] at whole
      exact .pure ⟨⟨.blocks (is.trans again), sameMask⟩, rfl, short, slice, progress, whole⟩
    | error cause =>
      obtain ⟨again, breaks, wanted, past, announced⟩ := reaches
      rw [is.plain] at past
      rw [is.payloadLength] at announced
      have unreadable : Layered.Unreadable { base := .blocks before, maskKey := maskKey' }
          cursor.position count cause :=
        ⟨is.breaksWith.mp breaks, wanted,
          Nat.lt_of_le_of_lt past (Nat.lt_add_of_pos_right wanted),
          Nat.max_lt.mpr ⟨announced, Nat.lt_of_le_of_lt past announced⟩⟩
      exact .throw ⟨⟨.blocks (is.trans again), sameMask⟩, rfl, past, cause, rfl, unreadable⟩

variable {origin : Layered} {view : View}

/-- A read takes the next part of the text, and fails only behind the last block that decrypts. -/
theorem read_slice (same : origin.Same view.stream) (count : Nat) :
    Reaches (read count) view
      (fun bytes after => origin.Same after.stream ∧ after.cursor.rule = view.cursor.rule ∧
        after.cursor.position = view.cursor.position + bytes.length ∧ bytes.length ≤ count ∧
        bytes = (origin.text view.cursor.rule).slice view.cursor.position bytes.length ∧
        (0 < count → view.cursor.position < origin.plain.length → bytes ≠ []) ∧
        (0 < count → view.cursor.position < origin.length → bytes = [] → ¬ origin.IsBroken))
      (fun fault after => origin.Same after.stream ∧
        ∃ cause, fault = .layer cause ∧
          origin.Unreadable view.cursor.position count cause) := by
  refine .get_bind <| .bind <| (readBase_reaches same count).mono ?_ ?_
  · rintro raw between ⟨again, kept, short, slice, progress, whole⟩
    refine .modify_bind (.pure ⟨again, ?_⟩)
    rw [kept, length_unmask]
    refine ⟨rfl, rfl, short, ?_, fun wanted inside => ?_, fun wanted inside none => ?_⟩
    · rw [Layered.text, ← same.maskKey, ← unmask_slice, ← slice]
    · apply List.ne_nil_of_length_pos
      rw [length_unmask]
      exact List.length_pos_of_ne_nil (progress wanted inside)
    · have empty := congrArg List.length none
      rw [length_unmask] at empty
      exact whole wanted inside (List.eq_nil_of_length_eq_zero empty)
  · rintro fault after ⟨again, _, _, stops⟩
    exact ⟨again, stops⟩

/-- Behind some of the bytes at a position, what is left of them is as unreadable as before. -/
theorem unreadable_rest {position count : Nat} {cause : Error} {got : Nat} (some_ : 0 < got)
    (inside : position + got ≤ origin.plain.length) (short : got ≤ count) :
    origin.Unreadable (position + got) (count - got) cause ↔
      origin.Unreadable position count cause := by
  constructor
  · rintro ⟨breaks, wanted, past, announced⟩
    exact ⟨breaks, by omega, by omega, by omega⟩
  · rintro ⟨breaks, wanted, past, announced⟩
    exact ⟨breaks, by omega, by omega, by omega⟩

/-- Reading on gives the next part of the text, and fails exactly if some of it is unreadable. -/
theorem readUpTo_slice (same : origin.Same view.stream) (count : Nat) :
    Reaches (readUpTo count) view
      (fun bytes after => origin.Same after.stream ∧ after.cursor.rule = view.cursor.rule ∧
        bytes = (origin.text view.cursor.rule).slice view.cursor.position count ∧
        ∀ cause, ¬ origin.Unreadable view.cursor.position count cause)
      (fun fault after => origin.Same after.stream ∧
        ∃ cause, fault = .layer cause ∧
          origin.Unreadable view.cursor.position count cause) := by
  -- The induction is on what is still wanted; a read that gives nothing is at the end of the text.
  induction count using Nat.strongRecOn generalizing view with
  | ind count ih =>
    rw [readUpTo]
    split
    · rename_i wanted
      refine .bind <| (read_slice same count).mono ?_ fun _ _ => id
      rintro bytes between ⟨again, rule, moved, short, slice, progress, whole⟩
      split
      · rename_i some_
        have inside : view.cursor.position + bytes.length ≤ origin.plain.length := by
          have got := congrArg List.length slice
          rw [Bytes.slice, List.length_take, List.length_drop, Layered.text,
            Cipher.length_plaintext] at got
          omega
        have later := ih (count - bytes.length) (by omega) again
        simp only [moved, unreadable_rest some_ inside short] at later
        refine .bind <| later.mono ?_ fun _ _ => id
        rintro more after ⟨last, kept, rest, readable⟩
        refine .pure ⟨last, kept.trans rule, ?_, readable⟩
        rw [rest, rule]
        nth_rewrite 1 [slice]
        rw [Bytes.slice, Bytes.slice, Bytes.slice, ← List.drop_drop, ← List.take_add,
          Nat.add_sub_cancel' short]
      · rename_i none_
        have empty : bytes = [] := List.eq_nil_of_length_eq_zero (by omega)
        have past : origin.plain.length ≤ view.cursor.position := by
          by_contra inside
          exact progress wanted (Nat.not_le.mp inside) empty
        refine .pure ⟨again, rule, ?_, fun cause unreadable => ?_⟩
        · rw [Bytes.slice, List.drop_eq_nil_of_le, List.take_nil]
          rw [Layered.text, Cipher.length_plaintext]
          exact past
        · have announced := unreadable.announced
          exact whole wanted (by omega) empty unreadable.breaks.isBroken
    · rename_i unwanted
      have zero : count = 0 := by omega
      exact .pure ⟨same, rfl, by rw [zero, Bytes.slice, List.take_zero],
        fun _ unreadable => unwanted unreadable.wanted⟩

/-- An exact read gives a whole part of the text. It fails only if the text ends before it, and then
with the cause for which some of it is unreadable, or else because it is short. -/
theorem readExact_slice (same : origin.Same view.stream) (count : Nat) :
    Reaches (readExact count) view
      (fun bytes after => origin.Same after.stream ∧ after.cursor.rule = view.cursor.rule ∧
        bytes = (origin.text view.cursor.rule).slice view.cursor.position count ∧
        bytes.length = count)
      (fun fault after => origin.Same after.stream ∧
        ((origin.text view.cursor.rule).slice view.cursor.position count).length < count ∧
        origin.Stops view.cursor.position count fault) := by
  refine .bind <| (readUpTo_slice same count).mono ?_ ?_
  · rintro bytes after ⟨again, rule, rfl, readable⟩
    split
    · rename_i short
      exact .throw ⟨again, short, .short readable⟩
    · rename_i enough
      refine .pure ⟨again, rule, rfl, Nat.le_antisymm (List.length_take_le _ _) ?_⟩
      exact Nat.not_lt.mp enough
  · rintro _ after ⟨again, cause, rfl, unreadable⟩
    refine ⟨again, ?_, .unreadable unreadable⟩
    have past := unreadable.past
    have wanted := unreadable.wanted
    rw [Bytes.slice, List.length_take, List.length_drop, Layered.text, Cipher.length_plaintext]
    omega

end View

/-- A call on a cursor. -/
inductive Call where
  | read (count : Nat)
  | seek (origin : Origin) (delta : Int)
  | setRule (rule : CounterRule)
  deriving DecidableEq, Repr

/-- What a call comes to. -/
inductive Reply where
  | bytes (bytes : Bytes)
  | position (position : Nat)
  | done
  | fault (fault : Fault)
  deriving DecidableEq, Repr

namespace Call

/-- The call as an operation on a view. -/
def operation : Call → ViewM Reply
  | read count => return .bytes (← View.read count)
  | seek origin delta => return .position (← View.seek origin delta)
  | setRule rule => do
    View.setRule rule
    return .done

/-- Where a seek counts from. -/
def seekBase (length : Nat) (cursor : Cursor) : Origin → Nat
  | .start => 0
  | .current => cursor.position
  | .finish => length

/-- How a cursor on some plain text answers a call, and where the call leaves it. -/
inductive Answered (plain : Bytes) (maskKey : Option UInt32) (length : Nat) (cursor : Cursor) :
    Call → Reply → Cursor → Prop where
  | read {count : Nat} {bytes : Bytes} (short : bytes.length ≤ count)
    (each : ∀ place < bytes.length,
      bytes[place]? = Cipher.unmaskedAt? maskKey cursor.rule plain (cursor.position + place))
    (progress : 0 < count → cursor.position < plain.length → bytes ≠ []) :
    Answered plain maskKey length cursor (.read count) (.bytes bytes)
      { cursor with position := cursor.position + bytes.length }
  | readFault {count : Nat} (fault : Fault) (past : plain.length ≤ cursor.position) :
    Answered plain maskKey length cursor (.read count) (.fault fault) cursor
  | seek {origin : Origin} {delta : Int} {target : Nat}
    (is : (target : Int) = seekBase length cursor origin + delta) :
    Answered plain maskKey length cursor (.seek origin delta) (.position target)
      { cursor with position := target }
  | seekFault {origin : Origin} {delta : Int} (fault : Fault)
    (outside : seekBase length cursor origin + delta < 0 ∨
      0x10000000000000000 ≤ seekBase length cursor origin + delta) :
    Answered plain maskKey length cursor (.seek origin delta) (.fault fault) cursor
  | setRule (rule : CounterRule) :
    Answered plain maskKey length cursor (.setRule rule) .done { cursor with rule }

end Call

namespace View

/-- Bytes of a plain text that are read at the cursor come out unmasked one by one. -/
theorem getElem?_unmask_slice (view : View) (plain : Bytes) {count place : Nat}
    (inside : place < count) :
    (view.unmask (plain.slice view.cursor.position count))[place]? =
      Cipher.unmaskedAt? view.stream.maskKey view.cursor.rule plain
        (view.cursor.position + place) := by
  rw [unmask_slice, Bytes.slice, List.getElem?_take_of_lt inside, List.getElem?_drop,
    Cipher.getElem?_plaintext]

variable {origin : Layered} {view : View}

theorem read_reaches (same : origin.Same view.stream) (count : Nat) :
    Reaches (read count) view
      (fun bytes after => origin.Same after.stream ∧
        Call.Answered origin.plain origin.maskKey origin.length view.cursor (.read count)
          (.bytes bytes) after.cursor)
      (fun fault after => origin.Same after.stream ∧
        Call.Answered origin.plain origin.maskKey origin.length view.cursor (.read count)
          (.fault fault) after.cursor) := by
  refine .get_bind <| .bind <| (readBase_reaches same count).mono ?_ ?_
  · rintro raw between ⟨again, kept, short, slice, progress, _⟩
    refine .modify_bind (.pure ⟨again, ?_⟩)
    rw [kept, ← length_unmask view raw]
    refine .read (by rwa [length_unmask]) (fun place inside => ?_) fun wanted inside => ?_
    · rw [length_unmask] at inside
      rw [← same.maskKey, slice]
      exact getElem?_unmask_slice view origin.plain inside
    · apply List.ne_nil_of_length_pos
      rw [length_unmask]
      exact List.length_pos_of_ne_nil (progress wanted inside)
  · rintro fault after ⟨again, kept, past, _⟩
    rw [kept]
    exact ⟨again, .readFault fault past⟩

/-- A seek goes to a place that is counted from its origin. -/
theorem seek_eq (whence : Origin) (delta : Int) :
    seek whence delta = (do
      let view ← get
      let target : Int := Call.seekBase view.stream.length view.cursor whence + delta
      if 0 ≤ target ∧ target < 0x10000000000000000 then
        set { view with cursor := { view.cursor with position := target.toNat } }
        return target.toNat
      else if view.stream.blocks?.isSome then throw .blockSeekRange
      else throw .seekRange) := by
  cases whence with
  | start => simp only [seek, Call.seekBase, Int.natCast_zero, Int.zero_add]
  | current => rfl
  | finish => rfl

theorem seek_reaches (same : origin.Same view.stream) (whence : Origin) (delta : Int) :
    Reaches (seek whence delta) view
      (fun position after => origin.Same after.stream ∧
        Call.Answered origin.plain origin.maskKey origin.length view.cursor (.seek whence delta)
          (.position position) after.cursor)
      (fun fault after => origin.Same after.stream ∧
        Call.Answered origin.plain origin.maskKey origin.length view.cursor (.seek whence delta)
          (.fault fault) after.cursor) := by
  rw [seek_eq]
  refine .get_bind ?_
  dsimp only
  rw [same.length]
  split
  · rename_i inside
    exact .set_bind (.pure ⟨same, .seek (Int.toNat_of_nonneg inside.1)⟩)
  · rename_i outside
    have fails : ∀ fault, Call.Answered origin.plain origin.maskKey origin.length view.cursor
        (.seek whence delta) (.fault fault) view.cursor := fun fault => .seekFault fault (by omega)
    split
    · exact .throw ⟨same, fails _⟩
    · exact .throw ⟨same, fails _⟩

end View

namespace Call

/-- The call on a cursor of a stream: the reply, and the stream and the cursor afterwards. -/
def onCursor (call : Call) (stream : Layered) (cursor : Cursor) : Reply × Layered × Cursor :=
  match call.operation.run.run { stream, cursor } with
  | (.ok reply, view) => (reply, view.stream, view.cursor)
  | (.error fault, view) => (.fault fault, view.stream, view.cursor)

/-- Every call is answered from the plain text, whatever has been decrypted before. -/
theorem onCursor_answered {origin stream : Layered} (same : origin.Same stream) (call : Call)
    (cursor : Cursor) :
    origin.Same (call.onCursor stream cursor).2.1 ∧
      call.Answered origin.plain origin.maskKey origin.length cursor
        (call.onCursor stream cursor).1 (call.onCursor stream cursor).2.2 := by
  have reaches : Reaches call.operation { stream, cursor }
      (fun reply after => origin.Same after.stream ∧
        call.Answered origin.plain origin.maskKey origin.length cursor reply after.cursor)
      (fun fault after => origin.Same after.stream ∧
        call.Answered origin.plain origin.maskKey origin.length cursor (.fault fault)
          after.cursor) := by
    cases call with
    | read count =>
      exact .bind <| (View.read_reaches same count).mono (fun _ _ is => .pure is) fun _ _ => id
    | seek whence delta =>
      exact .bind <| (View.seek_reaches same whence delta).mono (fun _ _ is => .pure is)
        fun _ _ => id
    | setRule rule => exact .modify_bind (.pure ⟨same, .setRule rule⟩)
  have ends := reaches.ends
  rw [onCursor]
  generalize call.operation.run.run { stream, cursor } = outcome at ends
  obtain ⟨result, view⟩ := outcome
  cases result <;> exact ends

end Call

/-- A cursor that is put together from two: one on what lies under the mask, and the mask's own,
which is moved along with it. -/
structure StackedCursor where
  base : Nat := 0
  mask : Nat := 0
  rule : CounterRule := .position
  deriving DecidableEq, Repr

namespace StackedCursor

/-- The stream without its mask, at the inner position. -/
def bare (cursor : StackedCursor) (stream : Layered) : View :=
  { stream := { stream with maskKey := none }, cursor := { position := cursor.base } }

/-- The call is passed on to the inner cursor. What comes back is unmasked by the outer position,
and only a success moves that one. -/
def onCursor (call : Call) (stream : Layered) (cursor : StackedCursor) :
    Reply × Layered × StackedCursor :=
  match call with
  | .setRule rule => (.done, stream, { cursor with rule })
  | .read _ | .seek _ _ =>
    let (result, inner) := call.operation.run.run (cursor.bare stream)
    let stream' := { stream with base := inner.stream.base }
    let cursor' := { cursor with base := inner.cursor.position }
    match result with
    | .ok (.bytes bytes) =>
      let view : View := { stream, cursor := { position := cursor.mask, rule := cursor.rule } }
      (.bytes (view.unmask bytes), stream', { cursor' with mask := cursor.mask + bytes.length })
    | .ok (.position position) => (.position position, stream', { cursor' with mask := position })
    | .ok reply => (reply, stream', cursor')
    | .error fault => (.fault fault, stream', cursor')

end StackedCursor

/-- Both positions of a cursor are the one. -/
def Cursor.stacked (cursor : Cursor) : StackedCursor :=
  { base := cursor.position, mask := cursor.position, rule := cursor.rule }

/-- Neither the mask nor its rule changes what is read under it. -/
theorem View.exists_readBase_run (base : Base) (position count : Nat) :
    ∃ result base', ∀ maskKey rule,
      (readBase count).run.run { stream := { base, maskKey }, cursor := { position, rule } } =
        (result, { stream := { base := base', maskKey }, cursor := { position, rule } }) := by
  cases base with
  | memory data => exact ⟨.ok (data.slice position count), .memory data, fun _ _ => rfl⟩
  | blocks blocks =>
    simp only [readBase, run_get_bind]
    generalize (Blocks.readAt position count).run.run blocks = outcome
    obtain ⟨result, after⟩ := outcome
    cases result with
    | ok bytes => exact ⟨.ok bytes, .blocks after, fun _ _ => rfl⟩
    | error cause => exact ⟨.error (.layer cause), .blocks after, fun _ _ => rfl⟩

/-- Two positions that are moved along behave as one. -/
theorem StackedCursor.onCursor_stacked (call : Call) (stream : Layered) (cursor : Cursor) :
    onCursor call stream cursor.stacked =
      ((call.onCursor stream cursor).1, (call.onCursor stream cursor).2.1,
        (call.onCursor stream cursor).2.2.stacked) := by
  obtain ⟨base, maskKey⟩ := stream
  obtain ⟨position, rule⟩ := cursor
  cases call with
  | setRule rule => rfl
  | read count =>
    obtain ⟨result, base', runs⟩ := View.exists_readBase_run base position count
    rw [onCursor, Call.onCursor, Call.operation, bare, Cursor.stacked, View.read, run_bind,
      run_get_bind, run_bind, runs, run_bind, run_get_bind, run_bind, runs]
    cases result with
    | error fault => rfl
    | ok bytes =>
      simp only [run_modify_bind, run_pure, View.length_unmask]
      rfl
  | seek whence delta =>
    have counted : Call.seekBase (Layered.length { base, maskKey := none }) { position } whence =
        Call.seekBase (Layered.length { base, maskKey }) { position, rule } whence := by
      cases whence <;> rfl
    rw [onCursor, Call.onCursor, Call.operation, bare, Cursor.stacked, View.seek_eq, run_bind,
      run_get_bind, run_bind, run_get_bind]
    dsimp only
    rw [counted]
    generalize (Call.seekBase (Layered.length { base, maskKey }) { position, rule } whence : Int) +
      delta = target
    by_cases inside : 0 ≤ target ∧ target < 0x10000000000000000
    · rw [if_pos inside, if_pos inside]
      rfl
    · rw [if_neg inside, if_neg inside]
      cases base <;> rfl

/-- How cursors of some kind begin, and how a call on one of them goes. -/
structure CursorKind (γ : Type) where
  start : CounterRule → γ
  onCursor : Call → Layered → γ → Reply × Layered × γ

def CursorKind.flat : CursorKind Cursor := ⟨fun rule => { rule }, Call.onCursor⟩

def CursorKind.stacked : CursorKind StackedCursor := ⟨fun rule => { rule }, StackedCursor.onCursor⟩

/-- What is asked of a stream: another cursor, or a call on one that is there. -/
inductive Request where
  | cursor (rule : CounterRule)
  | call (index : Nat) (call : Call)
  deriving DecidableEq, Repr

/-- A stream and the cursors on it. -/
structure Shared (γ : Type) where
  stream : Layered
  cursors : List γ := []

namespace Shared

variable {γ : Type}

/-- One request. There is a reply if a call finds its cursor. -/
def handle (kind : CursorKind γ) (shared : Shared γ) : Request → Option Reply × Shared γ
  | .cursor rule => (none, { shared with cursors := shared.cursors ++ [kind.start rule] })
  | .call index call =>
    match shared.cursors[index]? with
    | none => (none, shared)
    | some cursor =>
      let (reply, stream, after) := kind.onCursor call shared.stream cursor
      (some reply, { stream, cursors := shared.cursors.set index after })

/-- Requests one after the other: the replies, and the stream and its cursors in the end. -/
def run (kind : CursorKind γ) : Shared γ → List Request → List (Option Reply) × Shared γ
  | shared, [] => ([], shared)
  | shared, request :: rest =>
    let (reply, between) := shared.handle kind request
    let (replies, final) := run kind between rest
    (reply :: replies, final)

theorem handle_same {origin : Layered} {shared : Shared Cursor} (same : origin.Same shared.stream)
    (request : Request) : origin.Same (shared.handle .flat request).2.stream := by
  cases request with
  | cursor rule => exact same
  | call index call =>
    rw [handle]
    split
    · exact same
    · exact (Call.onCursor_answered same call _).1

/-- However the requests are interleaved, the stream stays the one it was. -/
theorem run_same {origin : Layered} {shared : Shared Cursor} (same : origin.Same shared.stream)
    (requests : List Request) : origin.Same (run .flat shared requests).2.stream := by
  induction requests generalizing shared with
  | nil => exact same
  | cons request rest ih => exact ih (handle_same same request)

/-- A call moves no cursor but its own, and that one as the plain text says. -/
theorem handle_answered {origin : Layered} {shared : Shared Cursor}
    (same : origin.Same shared.stream) {index : Nat} {cursor : Cursor}
    (there : shared.cursors[index]? = some cursor) (call : Call) :
    ∃ reply stream after,
      shared.handle .flat (.call index call) =
        (some reply, { stream, cursors := shared.cursors.set index after }) ∧
      call.Answered origin.plain origin.maskKey origin.length cursor reply after := by
  refine ⟨_, (call.onCursor shared.stream cursor).2.1, _, ?_,
    (Call.onCursor_answered same call cursor).2⟩
  rw [handle, there]
  rfl

/-- Both positions of each cursor are the one. -/
def stacked (shared : Shared Cursor) : Shared StackedCursor :=
  { stream := shared.stream, cursors := shared.cursors.map Cursor.stacked }

theorem handle_stacked (shared : Shared Cursor) (request : Request) :
    shared.stacked.handle .stacked request =
      ((shared.handle .flat request).1, (shared.handle .flat request).2.stacked) := by
  cases request with
  | cursor rule =>
    simp only [handle, stacked, List.map_append, List.map_singleton]
    rfl
  | call index call =>
    simp only [handle, stacked, List.getElem?_map]
    cases shared.cursors[index]? with
    | none => rfl
    | some cursor =>
      simp only [Option.map_some, CursorKind.stacked, StackedCursor.onCursor_stacked, List.map_set]
      rfl

/-- Cursors with two positions give the same replies, and their positions never differ. -/
theorem run_stacked (shared : Shared Cursor) (requests : List Request) :
    run .stacked shared.stacked requests =
      ((run .flat shared requests).1, (run .flat shared requests).2.stacked) := by
  induction requests generalizing shared with
  | nil => rfl
  | cons request rest ih => simp only [run, handle_stacked, ih]

end Shared

/-- An opened resource is one plain text to any number of cursors, however the calls on them are
interleaved. It makes no difference whether a cursor and its mask keep one position or two. -/
theorem Resource.run_answered {resource : Resource} {stream : Layered}
    (opened : resource.openLayers = .ok stream) {requests : List Request}
    {replies : List (Option Reply)} {shared : Shared Cursor}
    (ran : Shared.run .flat { stream } requests = (replies, shared)) :
    (∀ index cursor call, shared.cursors[index]? = some cursor →
      ∃ reply stream' after,
        shared.handle .flat (.call index call) =
          (some reply, { stream := stream', cursors := shared.cursors.set index after }) ∧
        call.Answered resource.plain stream.maskKey stream.length cursor reply after) ∧
    Shared.run .stacked { stream } requests = (replies, shared.stacked) ∧
    ∀ cursor ∈ (Shared.run .stacked { stream } requests).2.cursors, cursor.mask = cursor.base := by
  obtain ⟨same, plain⟩ := same_openLayers opened
  have twin : Shared.run .stacked { stream } requests = (replies, shared.stacked) := by
    have both := Shared.run_stacked { stream } requests
    rwa [ran] at both
  refine ⟨?_, twin, ?_⟩
  · intro index cursor call there
    have kept : stream.Same (Shared.run .flat { stream } requests).2.stream :=
      Shared.run_same same requests
    rw [ran] at kept
    rw [← plain]
    exact Shared.handle_answered kept there call
  · intro cursor member
    rw [twin] at member
    obtain ⟨flat, _, rfl⟩ := List.mem_map.mp member
    rfl

namespace BrokenBlock

/-- Blocks of two bytes behind the header, of none and of three, and one that does not decrypt. The
header announces nine bytes. -/
def resource : Resource :=
  { data := Bytes.ofNatBE 12 3000000001 ++ Bytes.ofNatBE 12 12446793391295263479442839188 ++
      Bytes.ofNatBE 12 18795124973148537841298596791 ++ List.replicate 12 0
    layers := [.blocks ⟨0x573bcf441eb0c26137fcc9b0, 3⟩, .mask 0xC0FFEE00] }

def stream : Layered := resource.openLayers.toOption.getD { base := .memory [] }

/-- Two cursors in turn: across the empty block, up to the broken one, and before the start. -/
def requests : List Request :=
  [.cursor .position, .cursor (.restarted 1 0x20), .call 0 (.read 9), .call 1 (.seek .start 2),
    .call 1 (.read 2), .call 0 (.setRule (.restarted 2 0)), .call 1 (.read 9), .call 1 (.read 1),
    .call 1 (.seek .current (-6)), .call 0 (.read 1)]

theorem run_answered_brokenBlock :
    resource.openLayers = .ok stream ∧ resource.plain = [0x50, 0x51, 0xDA, 0x98, 0x97] ∧
    (Shared.run .flat { stream } requests).1 =
      [none, none, some (.bytes [0x50, 0x50]), some (.position 2), some (.bytes [0xFB, 0xBA]),
        some .done, some (.bytes [0xB4]),
        some (.fault (.layer (.crypto "Unsupported PKCS#1 block type 0"))),
        some (.fault .blockSeekRange), some (.bytes [0xDA])] ∧
    (Shared.run .flat { stream } requests).2.cursors[0]? = some ⟨3, .restarted 2 0⟩ ∧
    (∃ reply stream' after,
      (Shared.run .flat { stream } requests).2.handle .flat (.call 0 (.read 4)) =
        (some reply, { stream := stream', cursors :=
          (Shared.run .flat { stream } requests).2.cursors.set 0 after }) ∧
      Call.Answered resource.plain stream.maskKey stream.length ⟨3, .restarted 2 0⟩ (.read 4) reply
        after) ∧
    ∀ cursor ∈ (Shared.run .stacked { stream } requests).2.cursors, cursor.mask = cursor.base := by
  have opened : resource.openLayers = .ok stream := by
    have opens : resource.openLayers.toOption.isSome = true := by decide +kernel
    cases result : resource.openLayers with
    | error e => rw [result] at opens; cases opens
    | ok value => rw [stream, result]; rfl
  have there : (Shared.run .flat { stream } requests).2.cursors[0]? =
      some ⟨3, .restarted 2 0⟩ := by decide +kernel
  have ran : Shared.run .flat { stream } requests = (_, _) := (Prod.eta _).symm
  have answered := Resource.run_answered opened ran
  exact ⟨opened, by decide +kernel, by decide +kernel, there, answered.1 0 _ (.read 4) there,
    answered.2.2⟩

end BrokenBlock

end Stream

end CilRecovery
