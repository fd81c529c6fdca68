import Mathlib.Algebra.Order.Group.Nat
import CilRecovery.Proofs.Reading
import CilRecovery.Proofs.Utf8

/-!
Writing what is read. For each kind of value there are the bytes that stand for it under a profile,
and reading takes these bytes back to the value, whatever follows them, and stops behind them. Such
facts are put together along the operation that reads.
-/
namespace CilRecovery

/-- Groups of seven bits, the lowest first; all but the last carry the high bit. -/
def Bytes.ofGroups (n : Nat) : Bytes :=
  if n < 128 then [UInt8.ofNat n]
  else UInt8.ofNat (n % 128 + 128) :: ofGroups (n / 128)

/-- A text behind its length in bytes. -/
def Bytes.ofText (text : String) : Bytes :=
  ofGroups (Text.Utf8.encode text.toList).length ++ Text.Utf8.encode text.toList

/-- One byte for a truth value. -/
def Bytes.ofBool (value : Bool) : Bytes := [if value then 1 else 0]

namespace Profile

def word (profile : Profile) (value : UInt32) : Bytes := (profile.get .four).encode value.toNat

@[simp]
theorem length_word (profile : Profile) (value : UInt32) : (profile.word value).length = 4 :=
  profile.length_encode .four value.toNat

def int (profile : Profile) (value : Int32) : Bytes := profile.word value.toUInt32

/-- Elements behind their number. -/
def counted (profile : Profile) (write : α → Bytes) (values : List α) : Bytes :=
  profile.int (Int32.ofNat values.length) ++ values.flatMap write

def ints (profile : Profile) (values : List Int32) : Bytes := profile.counted profile.int values

end Profile

namespace Reader

/-- Whatever follows some bytes, an operation reads them as a value and stops behind them, as long
as some profile is in force. -/
def Reads (profile : Profile) (operation : ReadM α) (bytes : Bytes) (value : α) : Prop :=
  ∀ reader : Reader, reader.profile = profile → reader.Ahead bytes →
    operation.run.run reader = (.ok value, reader.after bytes.length)

variable {profile : Profile}

namespace Reads

theorem pure (value : α) : Reads profile (Pure.pure value) [] value := by
  intro reader _ _
  rfl

/-- What is read one after the other is written one after the other. -/
theorem bind {first : ReadM α} {next : α → ReadM β} {front back : Bytes} {value : α} {result : β}
    (now : Reads profile first front value) (later : Reads profile (next value) back result) :
    Reads profile (first >>= next) (front ++ back) result := by
  intro reader inForce ahead
  rw [run_bind_ok (now reader inForce ahead.left),
    later (reader.after front.length) inForce ahead.right, after_after, List.length_append]

/-- What comes after the last read reads nothing more. -/
theorem last {first : ReadM α} {next : α → ReadM β} {bytes : Bytes} {value : α} {result : β}
    (now : Reads profile first bytes value) (later : Reads profile (next value) [] result) :
    Reads profile (first >>= next) bytes result := by
  have whole : Reads profile (first >>= next) (bytes ++ []) result := .bind now later
  rwa [List.append_nil] at whole

theorem repeated {element : ReadM α} {write : α → Bytes} {values : List α}
    (each : ∀ value ∈ values, Reads profile element (write value) value) :
    Reads profile (repeated element values.length) (values.flatMap write) values := by
  induction values with
  | nil => exact .pure []
  | cons first rest ih =>
    rw [List.flatMap_cons]
    refine .bind (each first (by simp)) (.last (ih ?_) (.pure _))
    intro value member
    exact each value (by simp [member])

end Reads

theorem reads_bytes (bytes : Bytes) : Reads profile (Reader.bytes bytes.length) bytes bytes := by
  intro reader _ ahead
  exact bytes_run ahead

theorem reads_u8 (value : UInt8) : Reads profile u8 [value] value := by
  intro reader _ ahead
  exact u8_run ahead

theorem reads_bool (value : Bool) : Reads profile bool (Bytes.ofBool value) value := by
  have reads : Reads profile bool (Bytes.ofBool value) ((if value then 1 else 0 : UInt8) != 0) :=
    .last (reads_u8 _) (.pure _)
  cases value <;> exact reads

theorem reads_u32 (value : UInt32) : Reads profile u32 (profile.word value) value := by
  intro reader inForce ahead
  rw [Profile.length_word]
  exact u32_run (by rwa [inForce])

theorem reads_i32 (value : Int32) : Reads profile i32 (profile.int value) value := by
  intro reader inForce ahead
  rw [Profile.int, Profile.length_word]
  exact i32_run (by rwa [inForce])

/-- A group without the high bit is the last. -/
theorem reads_lastGroup {n : Nat} (small : n < 128) (left shift sofar : Nat) :
    Reads profile (groups (left + 1) shift sofar) (Bytes.ofGroups n)
      ((sofar + n <<< shift) % 0x100000000) := by
  have byte : (UInt8.ofNat n).toNat = n := Text.Utf8.toNat_ofNat (by omega)
  rw [Bytes.ofGroups, if_pos small]
  refine .last (reads_u8 _) ?_
  rw [byte]
  dsimp only
  rw [if_pos small, Nat.mod_eq_of_lt small]
  exact .pure _

/-- The groups that are left make up a number on top of what has been read. -/
theorem reads_groups {left n : Nat} (fits : n < 128 ^ (left + 1)) (shift sofar : Nat) :
    Reads profile (groups (left + 1) shift sofar) (Bytes.ofGroups n)
      ((sofar + n <<< shift) % 0x100000000) := by
  induction left generalizing n shift sofar with
  | zero => exact reads_lastGroup (by simpa using fits) 0 shift sofar
  | succ left ih =>
    by_cases small : n < 128
    · exact reads_lastGroup small (left + 1) shift sofar
    · have byte : (UInt8.ofNat (n % 128 + 128)).toNat = n % 128 + 128 :=
        Text.Utf8.toNat_ofNat (by omega)
      have rest : n / 128 < 128 ^ (left + 1) := by
        rw [Nat.pow_succ] at fits
        exact Nat.div_lt_of_lt_mul (by rwa [Nat.mul_comm])
      have joined : sofar + (n % 128) <<< shift + (n / 128) <<< (shift + 7) =
          sofar + n <<< shift := by
        rw [Nat.add_assoc, Nat.add_comm shift 7, Nat.shiftLeft_add, Nat.shiftLeft_eq,
          Nat.shiftLeft_eq, Nat.shiftLeft_eq, Nat.shiftLeft_eq, ← Nat.add_mul]
        congr 2
        omega
      rw [Bytes.ofGroups, if_neg small, ← List.singleton_append]
      refine .bind (reads_u8 _) ?_
      rw [byte]
      dsimp only
      rw [if_neg (by omega), Nat.add_mod_right, Nat.mod_mod, ← joined]
      exact ih rest (shift + 7) _

theorem reads_sevenBit {n : Nat} (fits : n < 0x100000000) :
    Reads profile sevenBit (Bytes.ofGroups n) n := by
  have reads : Reads profile sevenBit (Bytes.ofGroups n) ((0 + n <<< 0) % 0x100000000) :=
    reads_groups (Nat.lt_trans fits (by decide)) 0 0
  rwa [Nat.shiftLeft_zero, Nat.zero_add, Nat.mod_eq_of_lt fits] at reads

theorem reads_string {text : String}
    (short : (Text.Utf8.encode text.toList).length ≤ lengthLimit) :
    Reads profile string (Bytes.ofText text) text := by
  have small : (Text.Utf8.encode text.toList).length < 0x100000000 :=
    Nat.lt_of_le_of_lt short (by decide)
  refine .bind (reads_sevenBit small) ?_
  rw [if_neg (Nat.not_lt.mpr short)]
  refine .last (reads_bytes _) ?_
  rw [Text.Utf8.decode_encode]
  dsimp only
  rw [String.ofList_toList]
  exact .pure text

theorem reads_count {count : Nat} (short : count ≤ lengthLimit) :
    Reads profile Reader.count (profile.int (Int32.ofNat count)) count := by
  have small : count ≤ 0x100000 := short
  have value : (Int32.ofNat count).toInt = count := by
    rw [Int32.toInt_ofNat_of_lt (by omega)]
  have inside : 0 ≤ (count : Int) ∧ (count : Int) ≤ (lengthLimit : Nat) := by
    constructor <;> omega
  refine .last (reads_i32 _) ?_
  rw [value, if_pos inside]
  exact .pure count

theorem reads_list {element : ReadM α} {write : α → Bytes} {values : List α}
    (short : values.length ≤ lengthLimit)
    (each : ∀ value ∈ values, Reads profile element (write value) value) :
    Reads profile (list element) (profile.counted write values) values :=
  .bind (reads_count short) (.repeated each)

theorem reads_ints {values : List Int32} (short : values.length ≤ lengthLimit) :
    Reads profile i32List (profile.ints values) values :=
  reads_list short fun value _ => reads_i32 value

end Reader

end CilRecovery
