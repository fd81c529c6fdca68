import Mathlib.Data.List.Basic
import CilRecovery.Reader
import CilRecovery.Proofs.Outcome
import CilRecovery.Proofs.Permutation

/-!
Reading from memory. Under its mask, a resource in memory is one fixed plain text: what is read
at a position is what stands there in the plain text.
-/
namespace CilRecovery

namespace Cipher

theorem mask_drop (key counter : UInt32) (count : Nat) (bytes : Bytes) :
    (mask key counter bytes).drop count =
      mask key (counter + UInt32.ofNat count) (bytes.drop count) := by
  induction count generalizing counter bytes with
  | zero => simp
  | succ count ih =>
    cases bytes with
    | nil => simp [mask]
    | cons b rest =>
      have shifted : counter + 1 + UInt32.ofNat count = counter + UInt32.ofNat (count + 1) := by
        rw [UInt32.ofNat_add, UInt32.add_assoc, UInt32.add_comm 1]
        rfl
      rw [mask, List.drop_succ_cons, List.drop_succ_cons, ih, shifted]

theorem mask_take (key counter : UInt32) (count : Nat) (bytes : Bytes) :
    (mask key counter bytes).take count = mask key counter (bytes.take count) := by
  induction count generalizing counter bytes with
  | zero => simp [mask]
  | succ count ih =>
    cases bytes with
    | nil => simp [mask]
    | cons b rest => simp [mask, ih]

@[simp]
theorem length_mask (key counter : UInt32) (bytes : Bytes) :
    (mask key counter bytes).length = bytes.length := by
  induction bytes generalizing counter with
  | nil => rfl
  | cons b rest ih => simp [mask, ih]

theorem CounterRule.counterAt_ofNat (rule : CounterRule) (position : Nat) :
    rule.counterAt (UInt64.ofNat position) = rule.counterAt 0 + UInt32.ofNat position := by
  cases rule with
  | position => simp [counterAt]
  | restarted origin seed =>
    simp only [counterAt]
    rw [UInt32.add_assoc, ← UInt64.toUInt32_ofNat', ← UInt64.toUInt32_add]
    congr 2
    rw [UInt64.zero_sub, UInt64.add_comm, ← UInt64.sub_eq_add_neg]

/-- The plain text of bytes under a mask or none. -/
def plaintext (maskKey : Option UInt32) (rule : CounterRule) (bytes : Bytes) : Bytes :=
  match maskKey with
  | none => bytes
  | some key => mask key (rule.counterAt 0) bytes

@[simp]
theorem length_plaintext (maskKey : Option UInt32) (rule : CounterRule) (bytes : Bytes) :
    (plaintext maskKey rule bytes).length = bytes.length := by
  cases maskKey <;> simp [plaintext]

end Cipher

namespace Stream.View

/-- A view of a resource in memory with some plain text. -/
def Shows (view : View) (plain : Bytes) : Prop :=
  ∃ data, view.stream.base = .memory data ∧
    Cipher.plaintext view.stream.maskKey view.cursor.rule data = plain

/-- The view after some bytes have been passed. -/
def after (view : View) (count : Nat) : View :=
  { view with cursor := { view.cursor with position := view.cursor.position + count } }

theorem Shows.after {view : View} {plain : Bytes} (shown : view.Shows plain) (count : Nat) :
    (view.after count).Shows plain := shown

theorem unmask_slice (view : View) (data : Bytes) (count : Nat) :
    view.unmask (data.slice view.cursor.position count) =
      (Cipher.plaintext view.stream.maskKey view.cursor.rule data).slice
        view.cursor.position count := by
  unfold unmask Cipher.plaintext
  cases view.stream.maskKey with
  | none => rfl
  | some key =>
    simp only [Bytes.slice]
    rw [Cipher.mask_drop, Cipher.mask_take, Cipher.CounterRule.counterAt_ofNat]

theorem read_run {view : View} {plain : Bytes} (shown : view.Shows plain) (count : Nat) :
    (read count).run.run view =
      (.ok (plain.slice view.cursor.position count),
        view.after (plain.slice view.cursor.position count).length) := by
  obtain ⟨data, memory, rfl⟩ := shown
  have raw : (readBase count).run.run view = (.ok (data.slice view.cursor.position count), view) := by
    rw [readBase, run_get_bind, memory, run_pure]
  have length : (data.slice view.cursor.position count).length =
      ((Cipher.plaintext view.stream.maskKey view.cursor.rule data).slice
        view.cursor.position count).length := by
    simp [Bytes.slice]
  rw [read, run_get_bind, run_bind_ok raw, run_modify_bind, run_pure, ← length, ← unmask_slice]
  rfl

/-- A read from memory leaves nothing of what was asked for. -/
theorem slice_rest (plain : Bytes) (position count : Nat) :
    plain.slice (position + (plain.slice position count).length)
      (count - (plain.slice position count).length) = [] := by
  apply List.eq_nil_of_length_eq_zero
  simp only [Bytes.slice, List.length_take, List.length_drop]
  omega

theorem readUpTo_run {view : View} {plain : Bytes} (shown : view.Shows plain) (count : Nat) :
    (readUpTo count).run.run view =
      (.ok (plain.slice view.cursor.position count),
        view.after (plain.slice view.cursor.position count).length) := by
  induction count using Nat.strongRecOn generalizing view with
  | ind count ih =>
    rw [readUpTo]
    split
    · rw [run_bind_ok (read_run shown count)]
      split
      · rename_i wanted progress
        have rest := ih (count - (plain.slice view.cursor.position count).length)
          (by omega) (shown.after (plain.slice view.cursor.position count).length)
        have nothing : plain.slice
            (view.after (plain.slice view.cursor.position count).length).cursor.position
            (count - (plain.slice view.cursor.position count).length) = [] :=
          slice_rest plain view.cursor.position count
        rw [nothing] at rest
        rw [run_bind_ok rest, run_pure, List.append_nil]
        rfl
      · rename_i stuck
        have empty : plain.slice view.cursor.position count = [] :=
          List.eq_nil_of_length_eq_zero (by omega)
        rw [run_pure, empty]
    · have zero : count = 0 := by omega
      subst zero
      rw [run_pure, Bytes.slice, List.take_zero]
      rfl

theorem readExact_run {view : View} {plain : Bytes} (shown : view.Shows plain) {count : Nat}
    (enough : (plain.slice view.cursor.position count).length = count) :
    (readExact count).run.run view =
      (.ok (plain.slice view.cursor.position count), view.after count) := by
  rw [readExact, run_bind_ok (readUpTo_run shown count), enough, if_neg (Nat.lt_irrefl _)]
  rfl

theorem seek_current_run (view : View) {count : Nat}
    (inside : view.cursor.position + count < 0x10000000000000000) :
    (seek .current count).run.run view =
      (.ok (view.cursor.position + count), view.after count) := by
  have target : 0 ≤ (view.cursor.position : Int) + count ∧
      (view.cursor.position : Int) + count < 0x10000000000000000 := by omega
  rw [seek, run_get_bind, if_pos target, run_set_bind, run_pure]
  rfl

theorem length_unmask (view : View) (bytes : Bytes) : (view.unmask bytes).length = bytes.length := by
  unfold unmask
  cases view.stream.maskKey <;> simp

/-- Whatever the stream, a read moves the cursor by what it read. -/
theorem position_of_read {view after : View} {count : Nat} {bytes : Bytes}
    (ends : (read count).run.run view = (.ok bytes, after)) :
    after.cursor.position = view.cursor.position + bytes.length := by
  rw [read, run_get_bind, run_bind] at ends
  generalize (readBase count).run.run view = outcome at ends
  obtain ⟨result, between⟩ := outcome
  cases result with
  | error e => cases ends
  | ok raw =>
    cases ends
    rw [length_unmask]

theorem position_of_readUpTo {view after : View} {count : Nat} {bytes : Bytes}
    (ends : (readUpTo count).run.run view = (.ok bytes, after)) :
    after.cursor.position = view.cursor.position + bytes.length := by
  induction count using Nat.strongRecOn generalizing view after bytes with
  | ind count ih =>
    rw [readUpTo] at ends
    split at ends
    · rw [run_bind] at ends
      cases first : (read count).run.run view with
      | mk result between =>
        rw [first] at ends
        cases result with
        | error e => cases ends
        | ok start =>
          have moved := position_of_read first
          dsimp only at ends
          split at ends
          · rw [run_bind] at ends
            cases second : (readUpTo (count - start.length)).run.run between with
            | mk result final =>
              rw [second] at ends
              cases result with
              | error e => cases ends
              | ok more =>
                cases ends
                have rest := ih (count - start.length) (by omega) second
                rw [rest, moved, List.length_append, Nat.add_assoc]
          · cases ends
            rename_i stuck
            rw [moved]
            simp only [List.length_nil]
            omega
    · cases ends
      rfl

end Stream.View

namespace Reader

/-- The reader after some bytes have been passed. -/
def after (reader : Reader) (count : Nat) : Reader :=
  { reader with view := reader.view.after count }

@[simp]
theorem after_position (reader : Reader) (count : Nat) :
    (reader.after count).position = reader.position + count := rfl

theorem after_after (reader : Reader) (first second : Nat) :
    (reader.after first).after second = reader.after (first + second) := by
  simp only [after, Stream.View.after, Nat.add_assoc]

/-- Some bytes come next in the plain text that is read. -/
def Ahead (reader : Reader) (bytes : Bytes) : Prop :=
  ∃ plain rest, reader.view.Shows plain ∧ plain.drop reader.position = bytes ++ rest

theorem Ahead.left {reader : Reader} {first second : Bytes} (ahead : reader.Ahead (first ++ second)) :
    reader.Ahead first := by
  obtain ⟨plain, rest, shown, next⟩ := ahead
  exact ⟨plain, second ++ rest, shown, by rw [next, List.append_assoc]⟩

theorem Ahead.right {reader : Reader} {first second : Bytes}
    (ahead : reader.Ahead (first ++ second)) : (reader.after first.length).Ahead second := by
  obtain ⟨plain, rest, shown, next⟩ := ahead
  refine ⟨plain, rest, shown.after first.length, ?_⟩
  rw [after_position, ← List.drop_drop, next, List.append_assoc, List.drop_left]

theorem ahead_ofBytes (data : Bytes) (profiles : Profiles) : (ofBytes data profiles).Ahead data :=
  ⟨data, [], ⟨data, rfl, rfl⟩, by simp [ofBytes, ofStream, position]⟩

@[simp]
theorem ofBytes_position (data : Bytes) (profiles : Profiles) :
    (ofBytes data profiles).position = 0 := rfl

theorem onView_run {operation : Stream.ViewM α} {reader : Reader} {value : α} {view : Stream.View}
    (ends : operation.run.run reader.view = (.ok value, view)) :
    (onView operation).run.run reader = (.ok value, { reader with view }) := by
  rw [onView, run_get_bind]
  simp only [ends]
  rfl

/-- Bytes that come next can be read. -/
theorem bytes_run {reader : Reader} {bytes : Bytes} (ahead : reader.Ahead bytes) :
    (Reader.bytes bytes.length).run.run reader = (.ok bytes, reader.after bytes.length) := by
  obtain ⟨plain, rest, shown, next⟩ := ahead
  have slice : plain.slice reader.view.cursor.position bytes.length = bytes := by
    rw [Bytes.slice, show reader.view.cursor.position = reader.position from rfl, next,
      List.take_left]
  have read := Stream.View.readExact_run shown (congrArg List.length slice)
  rw [slice] at read
  exact onView_run read

theorem skip_run (reader : Reader) {count : Nat} (short : count < 0x8000000000000000)
    (inside : reader.position + count < 0x10000000000000000) :
    (skip count).run.run reader = (.ok (), reader.after count) := by
  have moved := onView_run (Stream.View.seek_current_run reader.view inside)
  rw [skip, if_neg (Nat.not_le.mpr short)]
  change (onView (Stream.View.seek .current count) >>= fun _ => pure ()).run.run reader = _
  rw [run_bind_ok moved]
  rfl

/-- Whatever the stream, bytes that were read have been passed. -/
theorem position_le_of_bytes {reader after : Reader} {count : Nat} {bytes : Bytes}
    (ends : (Reader.bytes count).run.run reader = (.ok bytes, after)) :
    reader.position + count ≤ after.position := by
  rw [Reader.bytes, onView, run_get_bind] at ends
  cases read : (Stream.View.readExact count).run.run reader.view with
  | mk result view =>
    rw [read] at ends
    cases result with
    | error e => cases ends
    | ok value =>
      cases ends
      rw [Stream.View.readExact, run_bind] at read
      cases upTo : (Stream.View.readUpTo count).run.run reader.view with
      | mk result between =>
        rw [upTo] at read
        cases result with
        | error e => cases read
        | ok whole =>
          have moved := Stream.View.position_of_readUpTo upTo
          dsimp only at read
          split at read
          · cases read
          · cases read
            simp only [position]
            omega

/-- The profile in force. -/
def profile (reader : Reader) : Profile := reader.profiles.get reader.active

@[simp]
theorem after_profile (reader : Reader) (count : Nat) :
    (reader.after count).profile = reader.profile := rfl

/-- A number that comes next, as the profile in force writes it, can be read. -/
theorem number_run {reader : Reader} {width : Width} {n : Nat} (fits : n < 256 ^ width.bytes)
    (ahead : reader.Ahead ((reader.profile.get width).encode n)) :
    (number width).run.run reader = (.ok n, reader.after width.bytes) := by
  have read := bytes_run ahead
  rw [Profile.length_encode] at read
  rw [number, run_bind_ok read, run_get_bind, run_pure, ← profile, after_profile,
    Profile.decode_encode reader.profile width fits]

theorem u8_run {reader : Reader} {value : UInt8} (ahead : reader.Ahead [value]) :
    u8.run.run reader = (.ok value, reader.after 1) := by
  have read := bytes_run ahead
  rw [List.length_singleton] at read
  rw [u8, run_bind_ok read]
  rfl

theorem i8_run {reader : Reader} {value : UInt8} (ahead : reader.Ahead [value]) :
    i8.run.run reader = (.ok value.toInt8, reader.after 1) := by
  rw [i8, run_bind_ok (u8_run ahead), run_pure]

theorem u16_run {reader : Reader} {value : UInt16}
    (ahead : reader.Ahead ((reader.profile.get .two).encode value.toNat)) :
    u16.run.run reader = (.ok value, reader.after 2) := by
  have fits : value.toNat < 256 ^ Width.two.bytes := Nat.lt_of_lt_of_eq value.toNat_lt (by decide)
  rw [u16, run_bind_ok (number_run fits ahead), run_pure, UInt16.ofNat_toNat]
  rfl

theorem u32_run {reader : Reader} {value : UInt32}
    (ahead : reader.Ahead ((reader.profile.get .four).encode value.toNat)) :
    u32.run.run reader = (.ok value, reader.after 4) := by
  have fits : value.toNat < 256 ^ Width.four.bytes := Nat.lt_of_lt_of_eq value.toNat_lt (by decide)
  rw [u32, run_bind_ok (number_run fits ahead), run_pure, UInt32.ofNat_toNat]
  rfl

theorem i32_run {reader : Reader} {value : Int32}
    (ahead : reader.Ahead ((reader.profile.get .four).encode value.toUInt32.toNat)) :
    i32.run.run reader = (.ok value, reader.after 4) := by
  rw [i32, run_bind_ok (u32_run ahead), run_pure, Int32.toInt32_toUInt32]

theorem u64_run {reader : Reader} {value : UInt64}
    (ahead : reader.Ahead ((reader.profile.get .eight).encode value.toNat)) :
    u64.run.run reader = (.ok value, reader.after 8) := by
  have fits : value.toNat < 256 ^ Width.eight.bytes := Nat.lt_of_lt_of_eq value.toNat_lt (by decide)
  rw [u64, run_bind_ok (number_run fits ahead), run_pure, UInt64.ofNat_toNat]
  rfl

theorem i64_run {reader : Reader} {value : Int64}
    (ahead : reader.Ahead ((reader.profile.get .eight).encode value.toUInt64.toNat)) :
    i64.run.run reader = (.ok value, reader.after 8) := by
  rw [i64, run_bind_ok (u64_run ahead), run_pure, Int64.toInt64_toUInt64]

/-- Numbers that come next, one after the other, can be read. -/
theorem repeated_u32_run {reader : Reader} {values : List UInt32}
    (ahead : reader.Ahead
      (values.flatMap fun value => (reader.profile.get .four).encode value.toNat)) :
    (repeated u32 values.length).run.run reader =
      (.ok values, reader.after (4 * values.length)) := by
  induction values generalizing reader with
  | nil => rfl
  | cons value rest ih =>
    rw [List.flatMap_cons] at ahead
    have first := u32_run ahead.left
    have later := ahead.right
    rw [Profile.length_encode, show Width.four.bytes = 4 from rfl] at later
    rw [List.length_cons, repeated, run_bind_ok first, run_bind_ok (ih later), run_pure,
      after_after]
    congr 2
    omega

end Reader

end CilRecovery
