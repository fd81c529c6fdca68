import Mathlib.Data.List.Perm.Basic
import CilRecovery.Recovery.Header
import CilRecovery.Proofs.Records

/-!
Method headers and handler tables as they are written. The fields of a header stand in the order
that the build has for them, with nothing between them that names them, and the table follows at
once. Whatever the order, each field is read once, so what is read is the header that was written,
and the table is read from where the header ends.
-/
namespace CilRecovery

open Reader

variable {profile : Profile}

theorem HeaderLayout.order_of_ofOrder {order : List HeaderField} {layout : HeaderLayout}
    (accepted : ofOrder order = .ok layout) : layout.order = order := by
  rw [ofOrder] at accepted
  split at accepted
  · cases accepted
    rfl
  · split at accepted <;> cases accepted

/-! ### Headers -/

/-- The position of the type and one byte for the way of passing. -/
def HeaderParam.written (profile : Profile) (param : HeaderParam) : Bytes :=
  profile.int param.type ++ Bytes.ofBool param.byRef

namespace MethodHeader

/-- The bytes of one field. -/
def writtenField (profile : Profile) (header : MethodHeader) : HeaderField → Bytes
  | .locals => profile.ints header.locals
  | .parameters => profile.counted (HeaderParam.written profile) header.params
  | .name => Bytes.ofText header.name
  | .returnType => profile.int header.ret
  | .declaringType => profile.int header.declaring
  | .bindingFlags => [header.bindingFlags]

/-- The bytes of some fields, one after the other. -/
def written (profile : Profile) (header : MethodHeader) (order : List HeaderField) : Bytes :=
  order.flatMap (header.writtenField profile)

/-- A header whose text and lists are not too long to be read. -/
def Writable (header : MethodHeader) : Prop :=
  ShortList header.locals ∧ header.params.length ≤ lengthLimit ∧ ShortText header.name

instance (header : MethodHeader) : Decidable header.Writable := inferInstanceAs (Decidable (_ ∧ _))

/-- Takes one field over from a header into another. -/
def adopt (header into : MethodHeader) : HeaderField → MethodHeader
  | .locals => { into with locals := header.locals }
  | .parameters => { into with params := header.params }
  | .name => { into with name := header.name }
  | .returnType => { into with ret := header.ret }
  | .declaringType => { into with declaring := header.declaring }
  | .bindingFlags => { into with bindingFlags := header.bindingFlags }

/-- Fields may be taken over in any order. -/
instance (header : MethodHeader) : RightCommutative header.adopt where
  right_comm into first second := by cases first <;> cases second <;> rfl

/-- A header that took over all fields is the header that they came from. -/
theorem foldl_adopt (header into : MethodHeader) (layout : HeaderLayout) :
    layout.order.foldl header.adopt into = header := by
  rw [layout.isPerm.foldl_eq into]
  rfl

theorem reads_param (param : HeaderParam) : Reads profile readParam (param.written profile) param :=
  .bind (reads_i32 _) (.last (reads_bool _) (.pure _))

/-- A field is read into whatever header there is so far. -/
theorem reads_headerField {header : MethodHeader} (writable : header.Writable) (into : MethodHeader)
    (field : HeaderField) :
    Reads profile (readField into field) (header.writtenField profile field)
      (header.adopt into field) := by
  obtain ⟨locals, params, name⟩ := writable
  cases field with
  | locals => exact .last (reads_ints locals) (.pure _)
  | parameters => exact .last (reads_list params fun param _ => reads_param param) (.pure _)
  | name => exact .last (reads_string name) (.pure _)
  | returnType => exact .last (reads_i32 _) (.pure _)
  | declaringType => exact .last (reads_i32 _) (.pure _)
  | bindingFlags => exact .last (reads_u8 _) (.pure _)

theorem reads_headerFields {header : MethodHeader} (writable : header.Writable)
    (into : MethodHeader) (order : List HeaderField) :
    Reads profile (readFields into order) (header.written profile order)
      (order.foldl header.adopt into) := by
  induction order generalizing into with
  | nil => exact .pure into
  | cons field rest ih => exact .bind (reads_headerField writable into field) (ih _)

theorem reads_header {header : MethodHeader} (writable : header.Writable) (layout : HeaderLayout) :
    Reads profile (read layout) (header.written profile layout.order) header := by
  have reads : Reads profile (read layout) (header.written profile layout.order)
      (layout.order.foldl header.adopt {}) := reads_headerFields writable {} layout.order
  rwa [foldl_adopt] at reads

end MethodHeader

/-! ### Handler tables -/

def OffsetRange.written (profile : Profile) (range : OffsetRange) : Bytes :=
  profile.word range.start ++ profile.word range.length

namespace HandlerRecord

def written (profile : Profile) (record : HandlerRecord) : Bytes :=
  [record.code] ++ (profile.int record.catchType ++ (record.guarded.written profile ++
    (record.handler.written profile ++ profile.word record.filter)))

/-- The records behind their number. -/
def writtenTable (profile : Profile) (table : List HandlerRecord) : Bytes :=
  profile.counted (written profile) table

theorem reads_range (range : OffsetRange) : Reads profile readRange (range.written profile) range :=
  .bind (reads_u32 _) (.last (reads_u32 _) (.pure _))

theorem reads_record (record : HandlerRecord) :
    Reads profile read (record.written profile) record :=
  .bind (reads_u8 _) (.bind (reads_i32 _) (.bind (reads_range _) (.bind (reads_range _)
    (.last (reads_u32 _) (.pure record)))))

theorem reads_table {table : List HandlerRecord} (short : table.length ≤ lengthLimit) :
    Reads profile readTable (writtenTable profile table) table :=
  reads_list short fun record _ => reads_record record

end HandlerRecord

/-- Wherever in a plain text a header and a table stand and whatever follows them, reading comes to
the header, then to the table, and stops at the first byte behind them. This holds for every order
of fields that is accepted as a layout. -/
theorem MethodHeader.read_then_table {order : List HeaderField} {layout : HeaderLayout}
    (accepted : HeaderLayout.ofOrder order = .ok layout) {header : MethodHeader}
    (writable : header.Writable) {table : List HandlerRecord} (short : table.length ≤ lengthLimit)
    (reader : Reader) (before trailing : Bytes)
    (shown : reader.view.Shows (before ++ (header.written reader.profile order ++
      (HandlerRecord.writtenTable reader.profile table ++ trailing))))
    (there : reader.position = before.length) :
    (read layout).run.run reader =
      (.ok header, reader.after (header.written reader.profile order).length) ∧
    HandlerRecord.readTable.run.run
        (reader.after (header.written reader.profile order).length) =
      (.ok table, reader.after ((header.written reader.profile order).length +
        (HandlerRecord.writtenTable reader.profile table).length)) := by
  have ahead : reader.Ahead (header.written reader.profile order ++
      HandlerRecord.writtenTable reader.profile table) :=
    ⟨_, trailing, shown, by rw [there, List.drop_left, List.append_assoc]⟩
  have fields : Reads reader.profile (read layout) (header.written reader.profile order) header := by
    rw [← HeaderLayout.order_of_ofOrder accepted]
    exact reads_header writable layout
  have records : Reads reader.profile HandlerRecord.readTable
      (HandlerRecord.writtenTable reader.profile table) table := HandlerRecord.reads_table short
  refine ⟨fields reader rfl ahead.left, ?_⟩
  rw [records (reader.after _) rfl ahead.right, after_after]

namespace NameFirst

/-- Texts and lists stand before and between the fields of fixed width. -/
def order : List HeaderField :=
  [.name, .bindingFlags, .parameters, .declaringType, .locals, .returnType]

def layout : HeaderLayout := ⟨order, by decide⟩

def header : MethodHeader :=
  { locals := [3, -1], params := [⟨7, true⟩, ⟨-2, false⟩], name := "né", ret := -7, declaring := 21,
    bindingFlags := 0x18 }

def table : List HandlerRecord :=
  [⟨0, 5, ⟨0, 9⟩, ⟨9, 4⟩, 0⟩, ⟨1, -1, ⟨2, 0xFFFFFFFF⟩, ⟨13, 1⟩, 12⟩]

def headerBytes : Bytes :=
  [3, 0x6E, 0xC3, 0xA9, 0x18, 0, 2, 0, 0, 0, 7, 0, 0, 1, 0xFF, 0xFE, 0xFF, 0xFF, 0, 0, 21, 0, 0, 0,
    2, 0, 0, 0, 3, 0, 0, 0xFF, 0xFF, 0xFF, 0xFF, 0xFF, 0xF9, 0xFF, 0xFF]

def tableBytes : Bytes :=
  [0, 2, 0, 0,
    0, 0, 5, 0, 0, 0, 0, 0, 0, 0, 9, 0, 0, 0, 9, 0, 0, 0, 4, 0, 0, 0, 0, 0, 0,
    1, 0xFF, 0xFF, 0xFF, 0xFF, 0, 2, 0, 0, 0xFF, 0xFF, 0xFF, 0xFF, 0, 13, 0, 0, 0, 1, 0, 0, 0, 12,
    0, 0]

/-- A reader behind one byte, with two bytes behind the table. -/
def reader : Reader :=
  (Reader.ofBytes ([0xEE] ++ (headerBytes ++ (tableBytes ++ [5, 0])))
    OperandRecord.Scrambled.profiles).after 1

theorem written_header : header.written reader.profile order = headerBytes := by
  have name : Bytes.ofText "né" = [3, 0x6E, 0xC3, 0xA9] := by
    rw [Bytes.ofText, Bytes.ofGroups, if_pos (by decide)]
    decide
  have profile : reader.profile = OperandRecord.Scrambled.profiles.general := rfl
  simp only [MethodHeader.written, order, List.flatMap_cons, List.flatMap_nil,
    MethodHeader.writtenField, header, name, profile]
  decide

theorem written_table : HandlerRecord.writtenTable reader.profile table = tableBytes := by
  have profile : reader.profile = OperandRecord.Scrambled.profiles.general := rfl
  rw [profile]
  decide

theorem read_then_table_handlers :
    HeaderLayout.ofOrder order = .ok layout ∧
    (MethodHeader.read layout).run.run reader = (.ok header, reader.after 39) ∧
    HandlerRecord.readTable.run.run (reader.after 39) = (.ok table, reader.after 93) := by
  have accepted : HeaderLayout.ofOrder order = .ok layout := by decide
  have shown : reader.view.Shows ([0xEE] ++ (header.written reader.profile order ++
      (HandlerRecord.writtenTable reader.profile table ++ [5, 0]))) := by
    rw [written_header, written_table]
    exact ⟨_, rfl, rfl⟩
  have read := MethodHeader.read_then_table accepted (by decide) (by decide) reader [0xEE] [5, 0]
    shown rfl
  rw [written_header, written_table] at read
  exact ⟨accepted, read⟩

end NameFirst

end CilRecovery
