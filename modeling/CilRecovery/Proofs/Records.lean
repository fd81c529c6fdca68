import Mathlib.Data.Nat.Bitwise
import CilRecovery.Resolver.Record
import CilRecovery.Proofs.Writing

/-!
Operand records are written field after field, with nothing between the fields that names them. What
is read is still the record that was written, and reading ends where the record ends.
-/
namespace CilRecovery

open Reader

theorem RecordKind.ofCode_code (kind : RecordKind) :
    ofCode (UInt8.ofNat kind.code).toNat = .ok kind := by
  cases kind <;> rfl

/-- A text that is not too long to be read. -/
def ShortText (text : String) : Prop := (Text.Utf8.encode text.toList).length ≤ lengthLimit

/-- A list that is not too long to be read. -/
def ShortList (values : List Int32) : Prop := values.length ≤ lengthLimit

instance (text : String) : Decidable (ShortText text) := inferInstanceAs (Decidable (_ ≤ _))

instance (values : List Int32) : Decidable (ShortList values) := inferInstanceAs (Decidable (_ ≤ _))

variable {profile : Profile}

/-! ### Hints -/

namespace OperandRecord

/-- The bytes of a hint; zero stands for none. -/
def writtenHint (profile : Profile) (hint : Option Token) : Bytes :=
  profile.word (hint.elim 0 Token.value)

/-- A hint before or after a description, as the layout has it. -/
def writtenHinted (profile : Profile) (layout : OperandLayout) (description : Bytes)
    (hint : Option Token) : Bytes :=
  match layout with
  | .tokenFirst => writtenHint profile hint ++ description
  | .descriptionFirst => description ++ writtenHint profile hint

theorem reads_hint {hint : Option Token} (real : hint ≠ some ⟨0⟩) :
    Reads profile readHint (writtenHint profile hint) hint := by
  have value : (if hint.elim 0 Token.value = 0 then none else some ⟨hint.elim 0 Token.value⟩) =
      hint := by
    cases hint with
    | none => rfl
    | some token =>
      refine if_neg fun zero => real ?_
      obtain ⟨value⟩ := token
      cases (zero : value = 0)
      rfl
  refine .last (reads_u32 _) ?_
  rw [value]
  exact .pure hint

theorem reads_hinted {description : ReadM α} {bytes : Bytes} {value : α} {hint : Option Token}
    (layout : OperandLayout) (described : Reads profile description bytes value)
    (real : hint ≠ some ⟨0⟩) :
    Reads profile (readHinted layout description) (writtenHinted profile layout bytes hint)
      (value, hint) := by
  cases layout with
  | tokenFirst => exact .bind (reads_hint real) (.last described (.pure _))
  | descriptionFirst => exact .bind described (.last (reads_hint real) (.pure _))

end OperandRecord

/-! ### Types -/

namespace TypeRecord

/-- What is written of a type but for its hint. -/
def description (profile : Profile) (record : TypeRecord) : Bytes :=
  Bytes.ofText record.name ++ (profile.ints record.args ++ (Bytes.ofBool record.param.isSome ++
    (profile.int (Int32.ofNat (record.param.elim 0 GenericParam.index)) ++
      Bytes.ofBool (record.param.any GenericParam.onMethod))))

def Writable (record : TypeRecord) : Prop :=
  ShortText record.name ∧ ShortList record.args ∧
    (∀ param ∈ record.param, param.index < 0x80000000) ∧ record.hint ≠ some ⟨0⟩

instance (record : TypeRecord) : Decidable record.Writable := inferInstanceAs (Decidable (_ ∧ _))

theorem checkParam_param {param : Option GenericParam}
    (small : ∀ given ∈ param, given.index < 0x80000000) :
    OperandRecord.checkParam param.isSome (Int32.ofNat (param.elim 0 GenericParam.index))
      (param.any GenericParam.onMethod) = .ok param := by
  cases param with
  | none => rfl
  | some given =>
    have value : (Int32.ofNat given.index).toInt = given.index :=
      Int32.toInt_ofNat_of_lt (small given rfl)
    have nonneg : ¬ Int32.ofNat given.index < 0 := by
      rw [Int32.lt_iff_toInt_lt, value, Int32.toInt_zero]
      omega
    simp only [OperandRecord.checkParam, Option.isSome_some, Option.elim_some, Option.any_some,
      Bool.not_true, Bool.false_eq_true, if_false, if_neg nonneg, value, Int.toNat_natCast]

end TypeRecord

theorem OperandRecord.reads_type {record : TypeRecord} (layout : OperandLayout)
    (writable : record.Writable) :
    Reads profile (readType layout)
      (writtenHinted profile layout (record.description profile) record.hint) record := by
  obtain ⟨name, args, param, hint⟩ := writable
  refine .last (reads_hinted layout (.bind (reads_string name) (.bind (reads_ints args)
    (.bind (reads_bool _) (.bind (reads_i32 _) (.last (reads_bool _) (.pure _)))))) hint) ?_
  dsimp only
  rw [TypeRecord.checkParam_param param]
  exact .pure record

/-! ### Fields -/

namespace FieldRecord

/-- What is written of a field but for its hint. -/
def description (profile : Profile) (record : FieldRecord) : Bytes :=
  profile.int record.declaring ++ Bytes.ofText record.name

def Writable (record : FieldRecord) : Prop :=
  ShortText record.name ∧ record.hint ≠ some ⟨0⟩

instance (record : FieldRecord) : Decidable record.Writable := inferInstanceAs (Decidable (_ ∧ _))

end FieldRecord

theorem OperandRecord.reads_field {record : FieldRecord}
    (layout : OperandLayout) (writable : record.Writable) :
    Reads profile (readField layout)
      (writtenHinted profile layout (record.description profile) record.hint) record := by
  obtain ⟨name, hint⟩ := writable
  exact .last (reads_hinted layout (.bind (reads_i32 _) (.last (reads_string name) (.pure _))) hint)
    (.pure record)

/-! ### Methods -/

namespace MethodRecord

/-- What is written of a method but for its hint. -/
def description (profile : Profile) (record : MethodRecord) : Bytes :=
  profile.int record.declaring ++ (Bytes.ofText record.name ++ ([UInt8.ofNat record.flags] ++
    (profile.int record.ret ++ (profile.ints record.params ++ profile.ints record.args))))

def Writable (record : MethodRecord) : Prop :=
  ShortText record.name ∧ ShortList record.params ∧ ShortList record.args ∧
    record.hint ≠ some ⟨0⟩

instance (record : MethodRecord) : Decidable record.Writable := inferInstanceAs (Decidable (_ ∧ _))

theorem isStatic_of_flags (record : MethodRecord) :
    (UInt8.ofNat record.flags &&& 1 != 0) = record.isStatic := by
  unfold flags
  cases record.isStatic <;> cases record.isVirtual <;> rfl

theorem isVirtual_of_flags (record : MethodRecord) :
    (UInt8.ofNat record.flags &&& 2 != 0) = record.isVirtual := by
  unfold flags
  cases record.isStatic <;> cases record.isVirtual <;> rfl

end MethodRecord

theorem OperandRecord.reads_method {record : MethodRecord}
    (layout : OperandLayout) (writable : record.Writable) :
    Reads profile (readMethod layout)
      (writtenHinted profile layout (record.description profile) record.hint) record := by
  obtain ⟨name, params, args, hint⟩ := writable
  refine .last (reads_hinted layout (.bind (reads_i32 _) (.bind (reads_string name)
    (.bind (reads_u8 _) (.bind (reads_i32 _) (.bind (reads_ints params)
      (.last (reads_ints args) (.pure _))))))) hint) ?_
  rw [record.isStatic_of_flags, record.isVirtual_of_flags]
  exact .pure record

/-! ### Calls -/

/-- A single bit of a word is there or not. -/
theorem testBit_of_and (word : UInt32) {i : Nat} (inside : i < 32) :
    (word &&& UInt32.ofNat (2 ^ i) != 0) = word.toNat.testBit i := by
  have fits : 2 ^ i < UInt32.size := Nat.pow_lt_pow_right (by decide) inside
  have value : (word &&& UInt32.ofNat (2 ^ i)).toNat = (word.toNat.testBit i).toNat * 2 ^ i := by
    rw [UInt32.toNat_and, UInt32.toNat_ofNat_of_lt' fits, Nat.and_two_pow]
  rw [Bool.eq_iff_iff, bne_iff_ne, ne_eq, ← UInt32.toNat_inj, value]
  cases word.toNat.testBit i <;> simp

namespace CallRecord

/-- The word of a call, and the generic arguments if there are any. -/
def written (profile : Profile) (record : CallRecord) : Bytes :=
  profile.word (UInt32.ofNat record.packed) ++
    if record.args.isEmpty then [] else profile.ints record.args

/-- The position of the method lies below the flags. -/
def Writable (record : CallRecord) : Prop :=
  ShortList record.args ∧ 0 ≤ record.method.toInt ∧ record.method.toInt < 0x40000000

instance (record : CallRecord) : Decidable record.Writable := inferInstanceAs (Decidable (_ ∧ _))

theorem toNat_packed (record : CallRecord) :
    (UInt32.ofNat record.packed).toNat = record.packed := by
  apply UInt32.toNat_ofNat_of_lt'
  have size : UInt32.size = 0x100000000 := rfl
  unfold packed
  split <;> split <;> omega

/-- A flag of a packed call is a bit of its word. -/
theorem testBit_packed (record : CallRecord) {i : Nat} (inside : i < 32) :
    (UInt32.ofNat record.packed &&& UInt32.ofNat (2 ^ i) != 0) =
      decide (record.packed / 2 ^ i % 2 = 1) := by
  rw [testBit_of_and _ inside, toNat_packed, Nat.testBit_eq_decide_div_mod_eq]

theorem args_of_packed (record : CallRecord) :
    (UInt32.ofNat record.packed &&& 0x40000000 != 0) = !record.args.isEmpty := by
  refine (record.testBit_packed (show 30 < 32 by decide)).trans ?_
  unfold packed
  cases record.args.isEmpty <;> cases record.isVirtual <;> simp <;> omega

theorem isVirtual_of_packed (record : CallRecord) :
    (UInt32.ofNat record.packed &&& 0x80000000 != 0) = record.isVirtual := by
  refine (record.testBit_packed (show 31 < 32 by decide)).trans ?_
  unfold packed
  cases record.args.isEmpty <;> cases record.isVirtual <;> simp <;> omega

theorem method_of_packed {record : CallRecord} (writable : record.Writable) :
    (UInt32.ofNat record.packed &&& 0x3FFFFFFF).toInt32 = record.method := by
  obtain ⟨-, nonneg, below⟩ := writable
  have small : record.method.toUInt32.toNat < 0x40000000 := by
    have positive : 0 ≤ record.method := by rwa [Int32.le_iff_toInt_le, Int32.toInt_zero]
    rw [Int32.toNat_toUInt32_of_le positive, ← Int32.toNat_toInt]
    omega
  have position : UInt32.ofNat record.packed &&& 0x3FFFFFFF = record.method.toUInt32 := by
    apply UInt32.toNat_inj.mp
    rw [UInt32.toNat_and, toNat_packed]
    refine (Nat.and_two_pow_sub_one_eq_mod record.packed 30).trans ?_
    unfold packed
    split <;> split <;> omega
  rw [position, Int32.toInt32_toUInt32]

end CallRecord

theorem OperandRecord.reads_call {record : CallRecord}
    (writable : record.Writable) : Reads profile readCall (record.written profile) record := by
  refine .bind (reads_u32 _) ?_
  rw [record.args_of_packed, record.isVirtual_of_packed, CallRecord.method_of_packed writable]
  cases empty : record.args.isEmpty with
  | true =>
    have none : [] = record.args := (List.isEmpty_iff.mp empty).symm
    have reads : Reads profile (pure [] : ReadM (List Int32)) [] record.args := none ▸ .pure []
    exact .last reads (.pure record)
  | false => exact .last (reads_ints writable.1) (.pure record)

/-! ### Records -/

namespace OperandRecord

/-- The bytes of a record behind those of its kind. -/
def body (profile : Profile) (layout : OperandLayout) : OperandRecord → Bytes
  | token given => profile.word given.value
  | type record => writtenHinted profile layout (record.description profile) record.hint
  | field record => writtenHinted profile layout (record.description profile) record.hint
  | method record => writtenHinted profile layout (record.description profile) record.hint
  | packedCall record => record.written profile
  | userString text => Bytes.ofText text

/-- The bytes of a record. -/
def written (profile : Profile) (layout : OperandLayout) (record : OperandRecord) : Bytes :=
  [UInt8.ofNat record.kind.code] ++ record.body profile layout

/-- A record whose parts all fit into what is written of them. -/
def Writable : OperandRecord → Prop
  | token _ => True
  | type record => record.Writable
  | field record => record.Writable
  | method record => record.Writable
  | packedCall record => record.Writable
  | userString text => ShortText text

instance : (record : OperandRecord) → Decidable record.Writable
  | token _ => inferInstanceAs (Decidable True)
  | type record => inferInstanceAs (Decidable record.Writable)
  | field record => inferInstanceAs (Decidable record.Writable)
  | method record => inferInstanceAs (Decidable record.Writable)
  | packedCall record => inferInstanceAs (Decidable record.Writable)
  | userString text => inferInstanceAs (Decidable (ShortText text))

theorem reads_written {record : OperandRecord} (layout : OperandLayout)
    (writable : record.Writable) :
    Reads profile (read layout) (record.written profile layout) record := by
  refine .bind (reads_u8 _) ?_
  rw [RecordKind.ofCode_code]
  cases record with
  | token given => exact .last (reads_u32 _) (.pure _)
  | type record => exact .last (reads_type layout writable) (.pure _)
  | field record => exact .last (reads_field layout writable) (.pure _)
  | method record => exact .last (reads_method layout writable) (.pure _)
  | packedCall record => exact .last (reads_call writable) (.pure _)
  | userString text => exact .last (reads_string writable) (.pure _)

/-- Wherever in a plain text a record stands and whatever follows it, reading there comes to the
record and stops at the first byte behind it. -/
theorem read_written {record : OperandRecord} (writable : record.Writable) (layout : OperandLayout)
    (reader : Reader) (before trailing : Bytes)
    (shown : reader.view.Shows (before ++ (record.written reader.profile layout ++ trailing)))
    (there : reader.position = before.length) :
    (read layout).run.run reader =
      (.ok record, reader.after (record.written reader.profile layout).length) := by
  have ahead : reader.Ahead (record.written reader.profile layout) :=
    ⟨_, trailing, shown, by rw [there, List.drop_left]⟩
  exact reads_written layout writable reader rfl ahead

namespace Scrambled

theorem isPerm_four : [2, 0, 3, 1].Perm (List.range 4) := by decide

def profiles : Profiles where
  general := { Profile.identity with four := ⟨[2, 0, 3, 1], isPerm_four⟩, width_four := rfl }

def method : OperandRecord :=
  .method ⟨-7, "né", true, false, 21, [1, 2], [], some ⟨0x0600000A⟩⟩

def bytes : Bytes :=
  [3, 0xFF, 0xF9, 0xFF, 0xFF, 3, 0x6E, 0xC3, 0xA9, 1, 0, 21, 0, 0, 0, 2, 0, 0, 0, 1, 0, 0, 0, 2,
    0, 0, 0, 0, 0, 0, 0, 0x0A, 6, 0]

theorem written_method : method.written profiles.general .descriptionFirst = bytes := by
  have name : Bytes.ofText "né" = [3, 0x6E, 0xC3, 0xA9] := by
    rw [Bytes.ofText, Bytes.ofGroups, if_pos (by decide)]
    decide
  simp only [written, body, method, writtenHinted, MethodRecord.description, name]
  decide

theorem read_method :
    (read .descriptionFirst).run.run (Reader.ofBytes (bytes ++ [5, 0]) profiles) =
      (.ok method, (Reader.ofBytes (bytes ++ [5, 0]) profiles).after 34) := by
  have writable : method.Writable := by decide
  have shown : (Reader.ofBytes (bytes ++ [5, 0]) profiles).view.Shows
      ([] ++ (method.written profiles.general .descriptionFirst ++ [5, 0])) := by
    rw [written_method]
    exact ⟨bytes ++ [5, 0], rfl, rfl⟩
  have read := read_written writable .descriptionFirst _ [] [5, 0] shown rfl
  rwa [show (Reader.ofBytes (bytes ++ [5, 0]) profiles).profile = profiles.general from rfl,
    written_method] at read

end Scrambled

end OperandRecord

end CilRecovery
