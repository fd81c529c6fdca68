import CilRecovery.Proofs.Records

/-!
Values of all kinds in a row, with changes of profile between them. What is written for them under
the profile in force is read back under the same changes. If the end of the bytes is missing, some
value is not there as a whole: reading comes to the values before it, and then out of bounds.
-/
namespace CilRecovery

namespace Stream.View

/-- A read from memory that gets fewer bytes than it must. -/
theorem readExact_run_short {view : View} {plain : Bytes} (shown : view.Shows plain) {count : Nat}
    (short : (plain.slice view.cursor.position count).length < count) :
    (readExact count).run.run view =
      (.error .shortRead, view.after (plain.slice view.cursor.position count).length) := by
  rw [readExact, run_bind_ok (readUpTo_run shown count), if_pos short]
  rfl

end Stream.View

namespace Reader

/-! ### Running out of bytes -/

/-- Two runs of bytes are cut off within the first of them, or behind it. -/
theorem cut_append {front back first second : Bytes} (whole : front ++ back = first ++ second) :
    (∃ missing, missing ≠ [] ∧ front ++ missing = first) ∨
      ∃ begun, front = first ++ begun ∧ begun ++ back = second := by
  rcases List.append_eq_append_iff.mp whole with ⟨missing, is, rest⟩ | ⟨begun, is, rest⟩
  · rcases List.eq_nil_or_concat missing with rfl | ⟨_, _, concat⟩
    · exact .inr ⟨[], by rw [is, List.append_nil, List.append_nil], rest⟩
    · exact .inl ⟨missing, by simp [concat], is.symm⟩
  · exact .inr ⟨begun, is, rest.symm⟩

/-- Some bytes come next in the plain text that is read, and nothing behind them. -/
def Left (reader : Reader) (bytes : Bytes) : Prop :=
  ∃ plain, reader.view.Shows plain ∧ plain.drop reader.position = bytes

theorem Left.ahead {reader : Reader} {first second : Bytes} (left : reader.Left (first ++ second)) :
    reader.Ahead first := by
  obtain ⟨plain, shown, next⟩ := left
  exact ⟨plain, second, shown, next⟩

theorem Left.behind {reader : Reader} {first second : Bytes}
    (left : reader.Left (first ++ second)) : (reader.after first.length).Left second := by
  obtain ⟨plain, shown, next⟩ := left
  refine ⟨plain, shown.after first.length, ?_⟩
  rw [after_position, ← List.drop_drop, next, List.drop_left]

theorem left_ofBytes (data : Bytes) (profiles : Profiles) : (ofBytes data profiles).Left data :=
  ⟨data, ⟨data, rfl, rfl⟩, rfl⟩

theorem result_bytes_short {reader : Reader} {bytes : Bytes} (left : reader.Left bytes)
    {count : Nat} (short : bytes.length < count) :
    result (Reader.bytes count) reader = .error .outOfBounds := by
  obtain ⟨plain, shown, next⟩ := left
  have slice : plain.slice reader.view.cursor.position count = bytes := by
    rw [Bytes.slice, show reader.view.cursor.position = reader.position from rfl, next,
      List.take_of_length_le (Nat.le_of_lt short)]
  have fails := Stream.View.readExact_run_short shown (by rwa [slice])
  rw [result, Reader.bytes, onView, run_get_bind]
  simp only [fails]
  rfl

/-- A sequence ends in the error of its first step. -/
theorem result_bind_error {first : ReadM α} {next : α → ReadM β} {reader : Reader} {e : Error}
    (fails : result first reader = .error e) : result (first >>= next) reader = .error e := by
  rw [result] at fails ⊢
  rw [run_bind]
  generalize first.run.run reader = outcome at fails
  obtain ⟨ended, after⟩ := outcome
  cases fails
  rfl

theorem result_bind_ok {first : ReadM α} {next : α → ReadM β} {reader after : Reader} {value : α}
    (ends : first.run.run reader = (.ok value, after)) :
    result (first >>= next) reader = result (next value) after := by
  rw [result, result, run_bind_ok ends]

variable {profile : Profile}

/-- An operation runs out of bytes where some bytes are cut off before their end. -/
def Starves (profile : Profile) (operation : ReadM α) (bytes : Bytes) : Prop :=
  ∀ (reader : Reader) (front back : Bytes), reader.profile = profile → front ++ back = bytes →
    back ≠ [] → reader.Left front → result operation reader = .error .outOfBounds

namespace Starves

theorem nil (operation : ReadM α) : Starves profile operation [] := by
  intro reader front back _ whole more _
  exact absurd (List.append_eq_nil_iff.mp whole).2 more

theorem first {operation : ReadM α} {bytes : Bytes} (starves : Starves profile operation bytes)
    (next : α → ReadM β) : Starves profile (operation >>= next) bytes :=
  fun reader front back inForce whole more left =>
    result_bind_error (starves reader front back inForce whole more left)

/-- Bytes that end within what the first step reads starve that step. Else the first step comes to
its value, and the next one is starved. -/
theorem bind {operation : ReadM α} {next : α → ReadM β} {front back : Bytes} {value : α}
    (reads : Reads profile operation front value) (now : Starves profile operation front)
    (later : Starves profile (next value) back) :
    Starves profile (operation >>= next) (front ++ back) := by
  intro reader there missing inForce whole more left
  rcases cut_append whole with ⟨rest, short, within⟩ | ⟨begun, rfl, split⟩
  · exact result_bind_error (now reader there rest inForce within short left)
  · rw [result_bind_ok (reads reader inForce left.ahead)]
    exact later _ begun missing inForce split more left.behind

end Starves

/-- An operation reads some bytes as a value, and each of the bytes is needed for it. -/
structure Takes (profile : Profile) (operation : ReadM α) (bytes : Bytes) (value : α) : Prop where
  reads : Reads profile operation bytes value
  starves : Starves profile operation bytes

namespace Takes

theorem pure (value : α) : Takes profile (Pure.pure value) [] value := ⟨.pure value, .nil _⟩

theorem bind {first : ReadM α} {next : α → ReadM β} {front back : Bytes} {value : α} {result : β}
    (now : Takes profile first front value) (later : Takes profile (next value) back result) :
    Takes profile (first >>= next) (front ++ back) result :=
  ⟨.bind now.reads later.reads, .bind now.reads now.starves later.starves⟩

/-- What comes after the last read reads nothing more. -/
theorem last {first : ReadM α} {next : α → ReadM β} {bytes : Bytes} {value : α} {result : β}
    (now : Takes profile first bytes value) (later : Reads profile (next value) [] result) :
    Takes profile (first >>= next) bytes result :=
  ⟨.last now.reads later, now.starves.first next⟩

theorem repeated {element : ReadM α} {write : α → Bytes} {values : List α}
    (each : ∀ value ∈ values, Takes profile element (write value) value) :
    Takes profile (repeated element values.length) (values.flatMap write) values := by
  induction values with
  | nil => exact .pure []
  | cons first rest ih =>
    rw [List.flatMap_cons]
    refine .bind (each first (by simp)) (.last (ih ?_) (.pure _))
    intro value member
    exact each value (by simp [member])

end Takes

theorem takes_bytes (bytes : Bytes) : Takes profile (Reader.bytes bytes.length) bytes bytes where
  reads := reads_bytes bytes
  starves reader front back _ whole more left := by
    refine result_bytes_short left ?_
    rw [← whole, List.length_append]
    exact Nat.lt_add_of_pos_right (List.length_pos_of_ne_nil more)

theorem takes_u8 (value : UInt8) : Takes profile u8 [value] value :=
  .last (takes_bytes [value]) (.pure value)

theorem takes_i8 (value : Int8) : Takes profile i8 [value.toUInt8] value := by
  refine .last (takes_u8 value.toUInt8) ?_
  rw [Int8.toInt8_toUInt8]
  exact .pure value

theorem takes_bool (value : Bool) : Takes profile bool (Bytes.ofBool value) value :=
  ⟨reads_bool value, (takes_u8 _).starves.first _⟩

theorem takes_number (width : Width) {n : Nat} (fits : n < 256 ^ width.bytes) :
    Takes profile (number width) ((profile.get width).encode n) n where
  reads reader inForce ahead := by
    rw [Profile.length_encode]
    exact number_run fits (by rwa [inForce])
  starves := by
    have starves := (@takes_bytes profile ((profile.get width).encode n)).starves
    rw [Profile.length_encode] at starves
    exact starves.first _

theorem takes_u16 (value : UInt16) :
    Takes profile u16 ((profile.get .two).encode value.toNat) value := by
  have fits : value.toNat < 256 ^ Width.two.bytes := Nat.lt_of_lt_of_eq value.toNat_lt (by decide)
  refine .last (takes_number .two fits) ?_
  rw [UInt16.ofNat_toNat]
  exact .pure value

theorem takes_i16 (value : Int16) :
    Takes profile i16 ((profile.get .two).encode value.toUInt16.toNat) value := by
  refine .last (takes_u16 value.toUInt16) ?_
  rw [Int16.toInt16_toUInt16]
  exact .pure value

theorem takes_u32 (value : UInt32) : Takes profile u32 (profile.word value) value := by
  have fits : value.toNat < 256 ^ Width.four.bytes := Nat.lt_of_lt_of_eq value.toNat_lt (by decide)
  exact ⟨reads_u32 value, (takes_number .four fits).starves.first _⟩

theorem takes_u64 (value : UInt64) :
    Takes profile u64 ((profile.get .eight).encode value.toNat) value := by
  have fits : value.toNat < 256 ^ Width.eight.bytes := Nat.lt_of_lt_of_eq value.toNat_lt (by decide)
  refine .last (takes_number .eight fits) ?_
  rw [UInt64.ofNat_toNat]
  exact .pure value

theorem takes_i64 (value : Int64) :
    Takes profile i64 ((profile.get .eight).encode value.toUInt64.toNat) value := by
  refine .last (takes_u64 value.toUInt64) ?_
  rw [Int64.toInt64_toUInt64]
  exact .pure value

theorem takes_i32 (value : Int32) : Takes profile i32 (profile.int value) value :=
  ⟨reads_i32 value, (takes_u32 _).starves.first _⟩

/-- The groups of a number are needed up to the one without the high bit. -/
theorem starves_groups {left n : Nat} (fits : n < 128 ^ (left + 1)) (shift sofar : Nat) :
    Starves profile (groups (left + 1) shift sofar) (Bytes.ofGroups n) := by
  induction left generalizing n shift sofar with
  | zero =>
    have small : n < 128 := by simpa using fits
    rw [Bytes.ofGroups, if_pos small]
    exact (takes_u8 _).starves.first _
  | succ left ih =>
    rw [Bytes.ofGroups]
    split
    · exact (takes_u8 _).starves.first _
    · rename_i high
      have byte : (UInt8.ofNat (n % 128 + 128)).toNat = n % 128 + 128 :=
        Text.Utf8.toNat_ofNat (by omega)
      have rest : n / 128 < 128 ^ (left + 1) := by
        rw [Nat.pow_succ] at fits
        exact Nat.div_lt_of_lt_mul (by rwa [Nat.mul_comm])
      rw [← List.singleton_append]
      refine .bind (reads_u8 _) (takes_u8 _).starves ?_
      dsimp only
      rw [byte, if_neg (by omega)]
      exact ih rest _ _

theorem takes_string {text : String} (short : ShortText text) :
    Takes profile string (Bytes.ofText text) text where
  reads := reads_string short
  starves := by
    have small : (Text.Utf8.encode text.toList).length < 0x100000000 :=
      Nat.lt_of_le_of_lt short (by decide)
    have groups : Starves profile sevenBit
        (Bytes.ofGroups (Text.Utf8.encode text.toList).length) :=
      starves_groups (Nat.lt_trans small (by decide)) 0 0
    refine .bind (reads_sevenBit small) groups ?_
    rw [if_neg (Nat.not_lt.mpr short)]
    exact (takes_bytes _).starves.first _

theorem takes_list {element : ReadM α} {write : α → Bytes} {values : List α}
    (short : values.length ≤ lengthLimit)
    (each : ∀ value ∈ values, Takes profile element (write value) value) :
    Takes profile (list element) (profile.counted write values) values :=
  .bind ⟨reads_count short, (takes_i32 _).starves.first _⟩ (.repeated each)

theorem takes_ints {values : List Int32} (short : ShortList values) :
    Takes profile i32List (profile.ints values) values :=
  takes_list short fun value _ => takes_i32 value

/-! ### Values of all kinds -/

end Reader

/-- A value of one of the kinds that are read from bytes. Numbers of floating point count by their
bits. -/
inductive Datum where
  | u8 (value : UInt8)
  | i8 (value : Int8)
  | bool (value : Bool)
  | u16 (value : UInt16)
  | i16 (value : Int16)
  | u32 (value : UInt32)
  | i32 (value : Int32)
  | u64 (value : UInt64)
  | i64 (value : Int64)
  | float32 (bits : UInt32)
  | float64 (bits : UInt64)
  | decimal (value : Decimal)
  | string (text : String)
  | ints (values : List Int32)
  | raw (bytes : Bytes)
  deriving DecidableEq, Repr

namespace Datum

/-- The kinds of values. Of raw bytes the number is part of the kind. -/
inductive Kind where
  | u8
  | i8
  | bool
  | u16
  | i16
  | u32
  | i32
  | u64
  | i64
  | float32
  | float64
  | decimal
  | string
  | ints
  | raw (count : Nat)
  deriving DecidableEq, Repr

def kind : Datum → Kind
  | u8 _ => .u8
  | i8 _ => .i8
  | bool _ => .bool
  | u16 _ => .u16
  | i16 _ => .i16
  | u32 _ => .u32
  | i32 _ => .i32
  | u64 _ => .u64
  | i64 _ => .i64
  | float32 _ => .float32
  | float64 _ => .float64
  | decimal _ => .decimal
  | string _ => .string
  | ints _ => .ints
  | raw bytes => .raw bytes.length

/-- Reads a value of some kind. -/
def Kind.read : Kind → ReadM Datum
  | u8 => return .u8 (← Reader.u8)
  | i8 => return .i8 (← Reader.i8)
  | bool => return .bool (← Reader.bool)
  | u16 => return .u16 (← Reader.u16)
  | i16 => return .i16 (← Reader.i16)
  | u32 => return .u32 (← Reader.u32)
  | i32 => return .i32 (← Reader.i32)
  | u64 => return .u64 (← Reader.u64)
  | i64 => return .i64 (← Reader.i64)
  | float32 => return .float32 (← Reader.u32)
  | float64 => return .float64 (← Reader.u64)
  | decimal => return .decimal (← Reader.decimal)
  | string => return .string (← Reader.string)
  | ints => return .ints (← Reader.i32List)
  | raw count => return .raw (← Reader.bytes count)

/-- The bytes of a value under a profile. -/
def written (profile : Profile) : Datum → Bytes
  | u8 value => [value]
  | i8 value => [value.toUInt8]
  | bool value => Bytes.ofBool value
  | u16 value => (profile.get .two).encode value.toNat
  | i16 value => (profile.get .two).encode value.toUInt16.toNat
  | u32 value => profile.word value
  | i32 value => profile.int value
  | u64 value => (profile.get .eight).encode value.toNat
  | i64 value => (profile.get .eight).encode value.toUInt64.toNat
  | float32 bits => profile.word bits
  | float64 bits => (profile.get .eight).encode bits.toNat
  | decimal value =>
    profile.int value.lo ++ (profile.int value.mid ++ (profile.int value.hi ++
      profile.int value.flags))
  | string text => Bytes.ofText text
  | ints values => profile.ints values
  | raw bytes => bytes

/-- Texts and lists are not too long to be read. -/
def Readable : Datum → Prop
  | string text => ShortText text
  | ints values => ShortList values
  | _ => True

instance : (value : Datum) → Decidable value.Readable
  | string text => inferInstanceAs (Decidable (ShortText text))
  | ints values => inferInstanceAs (Decidable (ShortList values))
  | u8 _ | i8 _ | bool _ | u16 _ | i16 _ | u32 _ | i32 _ | u64 _ | i64 _ | float32 _ | float64 _
  | decimal _ | raw _ => inferInstanceAs (Decidable True)

open Reader in
theorem takes_written {profile : Profile} {value : Datum} (readable : value.Readable) :
    Takes profile value.kind.read (value.written profile) value := by
  cases value with
  | u8 value => exact .last (takes_u8 value) (.pure _)
  | i8 value => exact .last (takes_i8 value) (.pure _)
  | bool value => exact .last (takes_bool value) (.pure _)
  | u16 value => exact .last (takes_u16 value) (.pure _)
  | i16 value => exact .last (takes_i16 value) (.pure _)
  | u32 value => exact .last (takes_u32 value) (.pure _)
  | i32 value => exact .last (takes_i32 value) (.pure _)
  | u64 value => exact .last (takes_u64 value) (.pure _)
  | i64 value => exact .last (takes_i64 value) (.pure _)
  | float32 bits => exact .last (takes_u32 bits) (.pure _)
  | float64 bits => exact .last (takes_u64 bits) (.pure _)
  | decimal value => exact .last (.bind (takes_i32 _) (.bind (takes_i32 _) (.bind (takes_i32 _)
      (.last (takes_i32 _) (.pure value))))) (.pure _)
  | string text => exact .last (takes_string readable) (.pure _)
  | ints values => exact .last (takes_ints readable) (.pure _)
  | raw bytes => exact .last (takes_bytes bytes) (.pure _)

/-! ### Rows -/

/-- What stands in a row: a value, or a change of the profile in force. -/
inductive Item where
  | switch (kind : ProfileKind)
  | datum (value : Datum)
  deriving DecidableEq, Repr

/-- What is asked of a reader along a row. -/
inductive Request where
  | switch (kind : ProfileKind)
  | read (kind : Kind)
  deriving DecidableEq, Repr

def Item.request : Item → Request
  | switch kind => .switch kind
  | datum value => .read value.kind

def Item.value? : Item → Option Datum
  | switch _ => none
  | datum value => some value

/-- The profile in force behind an item. -/
def Item.behind (active : ProfileKind) : Item → ProfileKind
  | switch kind => kind
  | datum _ => active

/-- Reads the values of a row. -/
def readAll : List Request → ReadM (List Datum)
  | [] => return []
  | .switch kind :: rest => do
    Reader.setProfile kind
    readAll rest
  | .read kind :: rest => do
    let first ← kind.read
    let others ← readAll rest
    return first :: others

/-- The bytes of a row, each value under the profile that is in force when it comes. -/
def writtenAll (profiles : Profiles) : (active : ProfileKind) → List Item → Bytes
  | _, [] => []
  | _, .switch kind :: rest => writtenAll profiles kind rest
  | active, .datum value :: rest =>
    value.written (profiles.get active) ++ writtenAll profiles active rest

def Item.Readable : Item → Prop
  | switch _ => True
  | datum value => value.Readable

instance : (item : Item) → Decidable item.Readable
  | .switch _ => inferInstanceAs (Decidable True)
  | .datum value => inferInstanceAs (Decidable value.Readable)

/-- The values of a row can be read. -/
def AllReadable (items : List Item) : Prop := ∀ item ∈ items, item.Readable

instance (items : List Item) : Decidable (AllReadable items) :=
  inferInstanceAs (Decidable (∀ item ∈ items, _))

theorem AllReadable.value {value : Datum} {items : List Item}
    (readable : AllReadable (.datum value :: items)) : value.Readable :=
  readable (.datum value) List.mem_cons_self

theorem AllReadable.rest {item : Item} {items : List Item}
    (readable : AllReadable (item :: items)) : AllReadable items :=
  fun other member => readable other (List.mem_cons_of_mem item member)

/-- The reader behind a row. -/
def passed (reader : Reader) (items : List Item) : Reader :=
  { reader.after (writtenAll reader.profiles reader.active items).length with
    active := items.foldl Item.behind reader.active }

section Rows

variable {reader : Reader} {items : List Item}

theorem readAll_datum {value : Datum} (rest : List Request) (readable : value.Readable)
    (ahead : reader.Ahead (value.written reader.profile)) :
    (readAll (.read value.kind :: rest)).run.run reader =
      (readAll rest >>= fun others => pure (value :: others)).run.run
        (reader.after (value.written reader.profile).length) :=
  run_bind_ok ((takes_written readable).reads reader rfl ahead)

/-- The values of a row that comes next can be read. -/
theorem readAll_run (readable : AllReadable items)
    (ahead : reader.Ahead (writtenAll reader.profiles reader.active items)) :
    (readAll (items.map Item.request)).run.run reader =
      (.ok (items.filterMap Item.value?), passed reader items) := by
  induction items generalizing reader with
  | nil => rfl
  | cons item rest ih =>
    cases item with
    | switch kind =>
      exact ih readable.rest (show Reader.Ahead { reader with active := kind } _ from ahead)
    | datum value =>
      have later := @ih (reader.after (value.written reader.profile).length) readable.rest
        ahead.right
      rw [List.map_cons, Item.request, readAll_datum _ readable.value ahead.left,
        run_bind_ok later, run_pure, passed, passed, writtenAll, List.length_append,
        ← Reader.after_after]
      rfl

/-- Where the end of a row is cut off, some value of it is not there as a whole. The values before
it are read, and reading it comes out of bounds. -/
structure StopsShort (reader : Reader) (items : List Item) : Prop where
  stops : ∃ before value rest between, items = before ++ .datum value :: rest ∧
    (readAll (before.map Item.request)).run.run reader =
      (.ok (before.filterMap Item.value?), between) ∧
    Reader.result value.kind.read between = .error .outOfBounds
  whole : Reader.result (readAll (items.map Item.request)) reader = .error .outOfBounds

theorem stopsShort (readable : AllReadable items) {front back : Bytes}
    (cut : front ++ back = writtenAll reader.profiles reader.active items) (more : back ≠ [])
    (left : reader.Left front) : StopsShort reader items := by
  induction items generalizing reader front with
  | nil => exact absurd (List.append_eq_nil_iff.mp cut).2 more
  | cons item rest ih =>
    cases item with
    | switch kind =>
      obtain ⟨⟨before, value, others, between, rfl, reads, fails⟩, whole⟩ :=
        ih readable.rest cut (show Reader.Left { reader with active := kind } front from left)
      exact ⟨⟨.switch kind :: before, value, others, between, rfl, reads, fails⟩, whole⟩
    | datum value =>
      have takes := @takes_written reader.profile value readable.value
      rcases Reader.cut_append cut with ⟨missing, short, within⟩ | ⟨begun, rfl, split⟩
      · have fails := takes.starves reader front missing rfl within short left
        exact ⟨⟨[], value, rest, reader, rfl, rfl, fails⟩, Reader.result_bind_error fails⟩
      · obtain ⟨⟨before, later, others, between, rfl, reads, fails⟩, whole⟩ :=
          @ih (reader.after (value.written reader.profile).length) readable.rest begun split
            left.behind
        refine ⟨⟨.datum value :: before, later, others, between, rfl, ?_, fails⟩, ?_⟩
        · rw [List.map_cons, Item.request, readAll_datum _ readable.value left.ahead,
            run_bind_ok reads]
          rfl
        · rw [List.map_cons, Item.request, Reader.result,
            readAll_datum _ readable.value left.ahead]
          exact Reader.result_bind_error whole

end Rows

/-- What is written for values in a row, with changes of profile between them, is read back as these
values, up to the last byte. Of a proper prefix of it, the values before the first that is not there
as a whole are read, and then reading comes out of bounds. -/
theorem readAll_written (profiles : Profiles) {items : List Item} (readable : AllReadable items) :
    (∃ after,
      (readAll (items.map Item.request)).run.run
          (.ofBytes (writtenAll profiles .general items) profiles) =
        (.ok (items.filterMap Item.value?), after) ∧
      after.position = (writtenAll profiles .general items).length) ∧
    ∀ front, front <+: writtenAll profiles .general items →
      front ≠ writtenAll profiles .general items →
      StopsShort (.ofBytes front profiles) items := by
  constructor
  · refine ⟨_, readAll_run readable (Reader.ahead_ofBytes _ profiles), ?_⟩
    exact Nat.zero_add _
  · rintro front ⟨back, whole⟩ proper
    refine stopsShort readable whole ?_ (Reader.left_ofBytes front profiles)
    rintro rfl
    exact proper (by rw [← whole, List.append_nil])

namespace MixedRow

theorem isPerm_two : [1, 0].Perm (List.range 2) := by decide

theorem isPerm_four : [3, 2, 1, 0].Perm (List.range 4) := by decide

theorem isPerm_eight : [7, 6, 5, 4, 0, 1, 2, 3].Perm (List.range 8) := by decide

def two : Permutation := ⟨[1, 0], isPerm_two⟩

def four : Permutation := ⟨[3, 2, 1, 0], isPerm_four⟩

def eight : Permutation := ⟨[7, 6, 5, 4, 0, 1, 2, 3], isPerm_eight⟩

theorem width_two : two.width = 2 := rfl

theorem width_four : four.width = 4 := rfl

theorem width_eight : eight.width = 8 := rfl

def profiles : Profiles where
  general := { OperandRecord.Scrambled.profiles.general with eight, width_eight }
  instruction := { Profile.identity with two, four, width_two, width_four }

/-- The same word stands under either profile; what is longer than a byte comes behind a switch. -/
def items : List Item :=
  [.datum (.u32 0xCAFEBABE), .switch .instruction, .datum (.u32 0xCAFEBABE), .datum (.i16 (-2)),
    .datum (.string "né"), .switch .general, .datum (.float64 0x7FF0000000000001),
    .datum (.raw [0xEE, 0]), .datum (.ints [-1]), .datum (.bool true)]

def bytes : Bytes :=
  [0xFE, 0xBE, 0xCA, 0xBA, 0xCA, 0xFE, 0xBA, 0xBE, 0xFF, 0xFE, 3, 0x6E, 0xC3, 0xA9, 0x7F, 0xF0,
    0, 0, 1, 0, 0, 0, 0xEE, 0, 0, 1, 0, 0, 0xFF, 0xFF, 0xFF, 0xFF, 1]

/-- Cut off within the second byte of a character, the row stops short. -/
theorem readAll_written_mixed :
    AllReadable items ∧ writtenAll profiles .general items = bytes ∧
    (∃ after, (readAll (items.map Item.request)).run.run (.ofBytes bytes profiles) =
        (.ok (items.filterMap Item.value?), after) ∧ after.position = 33) ∧
    StopsShort (.ofBytes (bytes.take 13) profiles) items := by
  have readable : AllReadable items := by decide
  have written : writtenAll profiles .general items = bytes := by decide +kernel
  have mixed := readAll_written profiles readable
  rw [written] at mixed
  exact ⟨readable, written, mixed.1, mixed.2 _ (List.take_prefix 13 bytes) (by decide)⟩

end MixedRow

end Datum

end CilRecovery
