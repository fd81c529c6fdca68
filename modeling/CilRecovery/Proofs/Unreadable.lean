import CilRecovery.Proofs.Containment
import CilRecovery.Proofs.Course
import CilRecovery.Proofs.Padding

/-!
Blocks that do not decrypt, seen from above the stream. Whatever comes upon bytes that lie in such a
block ends in a fault of the stream that repeats the cause in words: a read fails so, and so does the
recovery of a method whose record it reads.
-/
namespace CilRecovery

open Cipher (PublicKey)

namespace Stream

/-! ### Streams -/

theorem Layered.BreaksWith.unique {stream : Layered} {cause cause' : Error}
    (breaks : stream.BreaksWith cause) (breaks' : stream.BreaksWith cause') : cause = cause' := by
  obtain ⟨base, maskKey⟩ := stream
  cases base with
  | memory data => exact breaks.elim
  | blocks blocks =>
    have fails := Blocks.BreaksWith.fails breaks
    have fails' := Blocks.BreaksWith.fails breaks'
    exact Except.error.inj (fails.symm.trans fails')

namespace Resource

theorem eq_mask_of_addLayer {data : Bytes} {stream after : Layered} {layer : Layer}
    (adds : addLayer data false stream layer = .ok after) :
    ∃ key, layer = .mask key ∧ after = { stream with maskKey := some key } := by
  cases layer with
  | mask key =>
    rw [addLayer] at adds
    split at adds <;> cases adds
    exact ⟨key, rfl, rfl⟩
  | blocks key | chain key => cases adds

/-- Layers that come later are masks, and leave the base of the stream. -/
theorem masks_of_foldlM {data : Bytes} {stream after : Layered} {layers : List Layer}
    (adds : layers.foldlM (addLayer data false) stream = .ok after) :
    after.base = stream.base ∧ ∀ layer ∈ layers, ∃ key, layer = .mask key := by
  induction layers generalizing stream with
  | nil =>
    cases adds
    exact ⟨rfl, List.forall_mem_nil _⟩
  | cons layer rest ih =>
    rw [List.foldlM_cons] at adds
    obtain ⟨between, first, adds⟩ := exists_of_bind_eq_ok adds
    obtain ⟨key, rfl, rfl⟩ := eq_mask_of_addLayer first
    obtain ⟨base, masks⟩ := ih adds
    exact ⟨base, List.forall_mem_cons.mpr ⟨⟨key, rfl⟩, masks⟩⟩

/-- Under a layer of blocks there are the blocks of the data. -/
theorem exists_blocks {resource : Resource} {stream : Layered} {key : PublicKey}
    (layered : .blocks key ∈ resource.layers) (opened : resource.openLayers = .ok stream) :
    ∃ blocks, stream.base = .blocks blocks ∧ blocks.key = key ∧ blocks.data = resource.data := by
  obtain ⟨outermost, rest, layers⟩ := List.exists_cons_of_ne_nil (List.ne_nil_of_mem layered)
  rw [layers] at layered
  simp only [openLayers, layers] at opened
  obtain ⟨between, first, opened⟩ := exists_of_bind_eq_ok opened
  obtain ⟨base, masks⟩ := masks_of_foldlM opened
  obtain rfl | later := List.mem_cons.mp layered
  · obtain ⟨blocks, source, first⟩ := exists_of_bind_eq_ok first
    cases first
    have found := Blocks.opened_of_ofResource source
    exact ⟨blocks, base, found.hasKey, found.hasData⟩
  · obtain ⟨_, ⟨⟩⟩ := masks _ later

/-- A stream of blocks breaks where the blocks of the data do. -/
theorem breaksWith_iff {resource : Resource} {stream : Layered} {key : PublicKey}
    (layered : .blocks key ∈ resource.layers) (opened : resource.openLayers = .ok stream)
    {cause : Error} :
    stream.BreaksWith cause ↔
      (Blocks.payloadsOf key resource.data).length < resource.data.length / key.blockSize ∧
        Blocks.FailsAt key resource.data (Blocks.payloadsOf key resource.data).length cause := by
  obtain ⟨blocks, base, rfl, same⟩ := exists_blocks layered opened
  obtain ⟨_, maskKey⟩ := stream
  cases base
  rw [← same]
  exact ⟨fun ⟨isBroken, fails⟩ => ⟨isBroken, fails⟩, fun ⟨isBroken, fails⟩ => ⟨isBroken, fails⟩⟩

end Resource

theorem Blocks.FailsAt.isCrypto {key : PublicKey} {data : Bytes} {index : Nat} {cause : Error}
    (fails : FailsAt key data index cause) : cause.IsCrypto :=
  PublicKey.decryptBlock_onlyFails _ _ _ fails

end Stream

theorem Error.IsCrypto.kind {e : Error} (is : e.IsCrypto) : e.kind = .crypto := by
  obtain ⟨reason, rfl⟩ := is
  rfl

theorem Error.IsMalformed.kind {e : Error} (is : e.IsMalformed) : e.kind = .format := by
  obtain ⟨reason, rfl⟩ := is
  rfl

namespace Reader

variable {origin : Stream.Layered}

/-! ### Reads -/

/-- A reader of a stream stands before bytes some of which are unreadable. -/
structure Faces (origin : Stream.Layered) (reader : Reader) (count : Nat) (cause : Error) : Prop where
  same : origin.Same reader.view.stream
  unreadable : origin.Unreadable reader.position count cause

/-- A read of bytes gives them, or it fails as it comes upon unreadable bytes or the end. -/
theorem bytes_faces {reader : Reader} (same : origin.Same reader.view.stream)
    (count : Nat) :
    Reaches (bytes count) reader
      (fun _ after => origin.Same after.view.stream ∧ ∀ cause, ¬ reader.Faces origin count cause)
      (fun e after => origin.Same after.view.stream ∧
        ((∀ cause, ¬ reader.Faces origin count cause) ∧ e = .outOfBounds ∨
          ∃ cause, reader.Faces origin count cause ∧ e = .io cause.message)) := by
  have reached := (Stream.View.readExact_slice same count).ends
  constructor
  rw [bytes, onView_run_eq]
  generalize (Stream.View.readExact count).run.run reader.view = outcome at reached
  obtain ⟨result, view⟩ := outcome
  cases result with
  | error fault =>
    obtain ⟨again, _, stops⟩ := reached
    refine ⟨again, ?_⟩
    cases stops with
    | short readable => exact .inl ⟨fun cause faces => readable cause faces.unreadable, rfl⟩
    | @unreadable cause unreadable => exact .inr ⟨cause, ⟨same, unreadable⟩, rfl⟩
  | ok value =>
    obtain ⟨again, _, slice, whole⟩ := reached
    refine ⟨again, fun cause faces => ?_⟩
    have past := faces.unreadable.past
    have wanted := faces.unreadable.wanted
    have short := congrArg List.length slice
    rw [Bytes.slice, List.length_take, List.length_drop, Stream.Layered.text,
      Cipher.length_plaintext, whole] at short
    change origin.plain.length < reader.view.cursor.position + count at past
    omega

theorem Faces.result_bytes {reader : Reader} {count : Nat} {cause : Error}
    (faces : reader.Faces origin count cause) :
    result (bytes count) reader = .error (.io cause.message) := by
  have reached := (bytes_faces faces.same count).ends
  rw [result]
  generalize (bytes count).run.run reader = outcome at reached
  obtain ⟨result, after⟩ := outcome
  cases result with
  | ok value => exact absurd faces (reached.2 cause)
  | error e =>
    obtain ⟨-, ⟨readable, -⟩ | ⟨cause', faces', rfl⟩⟩ := reached
    · exact absurd faces (readable cause)
    · rw [faces.unreadable.breaks.unique faces'.unreadable.breaks]

/-- An operation comes to ask for a number of bytes, and where it does. -/
inductive Demands : {α : Type} → ReadM α → Reader → Nat → Reader → Prop
  | bytes (count : Nat) (reader : Reader) : Demands (bytes count) reader count reader
  | first {α β : Type} {operation : ReadM α} {next : α → ReadM β} {reader there : Reader}
    {count : Nat} (now : Demands operation reader count there) :
    Demands (operation >>= next) reader count there
  | later {α β : Type} {operation : ReadM α} {next : α → ReadM β} {reader between there : Reader}
    {count : Nat} {value : α} (ends : operation.run.run reader = (.ok value, between))
    (after : Demands (next value) between count there) :
    Demands (operation >>= next) reader count there

/-- An operation that comes to ask for bytes in vain ends as that read does. -/
theorem Demands.result {operation : ReadM α} {reader there : Reader} {count : Nat} {e : Error}
    (demands : Demands operation reader count there)
    (fails : Reader.result (Reader.bytes count) there = .error e) :
    Reader.result operation reader = .error e := by
  induction demands with
  | bytes => exact fails
  | @first _ _ operation next reader _ _ now ih =>
    have failed := ih fails
    rw [Reader.result] at failed ⊢
    rw [run_bind]
    generalize operation.run.run reader = outcome at failed
    obtain ⟨result, between⟩ := outcome
    cases failed
    rfl
  | later ends after ih =>
    rw [Reader.result, run_bind_ok ends]
    exact ih fails

/-- An operation comes to ask for bytes some of which are unreadable. -/
def Meets (origin : Stream.Layered) (operation : ReadM α) (reader : Reader) (cause : Error) : Prop :=
  ∃ count there, Demands operation reader count there ∧ there.Faces origin count cause

theorem Meets.result {operation : ReadM α} {reader : Reader} {cause : Error}
    (meets : Meets origin operation reader cause) :
    Reader.result operation reader = .error (.io cause.message) := by
  obtain ⟨count, there, demands, faces⟩ := meets
  exact demands.result faces.result_bytes

theorem Meets.breaksWith {operation : ReadM α} {reader : Reader} {cause : Error}
    (meets : Meets origin operation reader cause) : origin.BreaksWith cause := by
  obtain ⟨_, _, _, faces⟩ := meets
  exact faces.unreadable.breaks

theorem Meets.first {operation : ReadM α} {next : α → ReadM β} {reader : Reader} {cause : Error}
    (meets : Meets origin operation reader cause) : Meets origin (operation >>= next) reader cause := by
  obtain ⟨count, there, demands, faces⟩ := meets
  exact ⟨count, there, .first demands, faces⟩

theorem Meets.later {operation : ReadM α} {next : α → ReadM β} {reader between : Reader}
    {value : α} {cause : Error} (ends : operation.run.run reader = (.ok value, between))
    (meets : Meets origin (next value) between cause) :
    Meets origin (operation >>= next) reader cause := by
  obtain ⟨count, there, demands, faces⟩ := meets
  exact ⟨count, there, .later ends demands, faces⟩

/-- Why an operation that reads a stream may fail. -/
inductive FailsWith (origin : Stream.Layered) (operation : ReadM α) (reader : Reader) :
    Error → Prop
  | malformed {e : Error} (is : e.IsMalformed) : FailsWith origin operation reader e
  | short : FailsWith origin operation reader .outOfBounds
  | unreadable {cause : Error} (meets : Meets origin operation reader cause) :
    FailsWith origin operation reader (.io cause.message)

namespace FailsWith

variable {operation : ReadM α} {reader : Reader} {e : Error}

theorem kind (fails : FailsWith origin operation reader e) : e.kind = .format := by
  cases fails with
  | malformed is => exact is.kind
  | short => rfl
  | unreadable meets => rfl

theorem mono {operation' : ReadM β} {reader' : Reader}
    (fails : FailsWith origin operation reader e)
    (meets : ∀ cause, Meets origin operation reader cause → Meets origin operation' reader' cause) :
    FailsWith origin operation' reader' e := by
  cases fails with
  | malformed is => exact .malformed is
  | short => exact .short
  | unreadable met => exact .unreadable (meets _ met)

end FailsWith

/-- Operations that are put together from reads of bytes stay on their stream, and fail as they may. -/
theorem Composed.failsWith {operation : ReadM α} (composed : Composed operation) {reader : Reader}
    (same : origin.Same reader.view.stream) :
    Reaches operation reader (fun _ after => origin.Same after.view.stream)
      (fun e _ => FailsWith origin operation reader e) := by
  -- What a part comes to ask for, the whole does: the first part at once, the next from where the
  -- first one ended.
  induction composed generalizing reader with
  | bytes count =>
    refine (bytes_faces same count).mono (fun _ _ => And.left) ?_
    rintro e after ⟨-, ⟨-, rfl⟩ | ⟨cause, faces, rfl⟩⟩
    · exact .short
    · exact .unreadable ⟨count, reader, .bytes count reader, faces⟩
  | pure value => exact .pure same
  | throw is => exact .throw (.malformed is)
  | get_bind _ ih =>
    exact .get_bind <| (ih reader same).mono (fun _ _ => id) fun _ _ fails =>
      fails.mono fun _ => .later rfl
  | @bind _ _ first next _ _ now later =>
    constructor
    rw [run_bind]
    have reached := (now same).ends
    cases ends : first.run.run reader with
    | mk result between =>
      rw [ends] at reached
      cases result with
      | error e => exact reached.mono fun _ => .first
      | ok value =>
        exact ((later value reached).mono (fun _ _ => id) fun _ _ fails =>
          fails.mono fun _ => .later ends).ends

theorem Composed.failsWith_of_result {operation : ReadM α} (composed : Composed operation)
    {reader : Reader} (same : origin.Same reader.view.stream) {e : Error}
    (fails : Reader.result operation reader = .error e) :
    FailsWith origin operation reader e := by
  have reached := (composed.failsWith same).ends
  rw [Reader.result] at fails
  generalize operation.run.run reader = outcome at reached fails
  obtain ⟨result, after⟩ := outcome
  cases fails
  exact reached

/-- The read operations that a reader offers. Floating point numbers are read as their bits. -/
inductive Offers : {α : Type} → ReadM α → Prop
  | bytes (count : Nat) : Offers (bytes count)
  | u8 : Offers u8
  | i8 : Offers i8
  | bool : Offers bool
  | u16 : Offers u16
  | i16 : Offers i16
  | u32 : Offers u32
  | i32 : Offers i32
  | u64 : Offers u64
  | i64 : Offers i64
  | decimal : Offers decimal
  | sevenBit : Offers sevenBit
  | string : Offers string
  | count : Offers count
  | i32List : Offers i32List

theorem Offers.composed {operation : ReadM α} (offers : Offers operation) :
    Composed operation := by
  cases offers with
  | bytes count => exact .bytes count
  | u8 => exact .u8
  | i8 => exact .i8
  | bool => exact .bool
  | u16 => exact .u16
  | i16 => exact .i16
  | u32 => exact .u32
  | i32 => exact .i32
  | u64 => exact .u64
  | i64 => exact .i64
  | decimal => exact .decimal
  | sevenBit => exact .sevenBit
  | string => exact .string
  | count => exact .count
  | i32List => exact .list .i32

end Reader

/-! ### Methods -/

namespace Reader

theorem demands_u8 (reader : Reader) : Demands u8 reader 1 reader := .first (.bytes 1 reader)

theorem demands_i32 (reader : Reader) : Demands i32 reader 4 reader :=
  .first (.first (.first (.bytes 4 reader)))

/-- A seek puts the reader at a position. -/
theorem seek_run (reader : Reader) {position : Nat} (inside : position < 0x10000000000000000) :
    (seek position).run.run reader =
      (.ok (), { reader with
        view := { reader.view with cursor := { reader.view.cursor with position } } }) := by
  have target : 0 ≤ (position : Int) ∧ (position : Int) < 0x10000000000000000 := by omega
  have sought : (Stream.View.seek .start position).run.run reader.view =
      (.ok position, { reader.view with cursor := { reader.view.cursor with position } }) := by
    rw [Stream.View.seek, run_get_bind, if_pos target, run_set_bind, run_pure]
    rfl
  change (onView (Stream.View.seek .start position) >>= fun _ => pure ()).run.run reader = _
  rw [run_bind_ok (onView_run sought)]
  rfl

end Reader

namespace MethodHeader

open Reader (demands_u8 demands_i32)

/-- Whatever field it is, reading it begins with some bytes. -/
theorem demands_readField (header : MethodHeader) (field : HeaderField) (reader : Reader) :
    ∃ count, 0 < count ∧ Reader.Demands (readField header field) reader count reader := by
  cases field with
  | locals => exact ⟨4, by decide, .first (.first (.first (demands_i32 reader)))⟩
  | parameters => exact ⟨4, by decide, .first (.first (.first (demands_i32 reader)))⟩
  | name => exact ⟨1, by decide, .first (.first (.first (demands_u8 reader)))⟩
  | returnType => exact ⟨4, by decide, .first (demands_i32 reader)⟩
  | declaringType => exact ⟨4, by decide, .first (demands_i32 reader)⟩
  | bindingFlags => exact ⟨1, by decide, .first (demands_u8 reader)⟩

theorem demands_read (layout : HeaderLayout) (reader : Reader) :
    ∃ count, 0 < count ∧ Reader.Demands (read layout) reader count reader := by
  rw [read]
  cases fields : layout.order with
  | nil =>
    have length := layout.isPerm.length_eq
    rw [fields] at length
    cases length
  | cons field rest =>
    obtain ⟨count, wanted, demands⟩ := demands_readField {} field reader
    exact ⟨count, wanted, .first demands⟩

end MethodHeader

/-- Decoding comes to ask for a number of bytes, and where it does. -/
inductive Decoder.Demands : {α : Type} → DecodeM α → Decoding → Session → Nat → Reader → Prop
  | reading {α : Type} {operation : ReadM α} {state : Decoding} {count : Nat} {there : Reader}
    (session : Session) (demands : Reader.Demands operation state.reader count there) :
    Demands (reading operation) state session count there
  | first {α β : Type} {operation : DecodeM α} {next : α → DecodeM β} {state : Decoding}
    {session : Session} {count : Nat} {there : Reader}
    (now : Demands operation state session count there) :
    Demands (operation >>= next) state session count there
  | later {α β : Type} {operation : DecodeM α} {next : α → DecodeM β} {state between : Decoding}
    {session session' : Session} {count : Nat} {there : Reader} {value : α}
    (ends : (operation.run state).run.run session = (.ok (value, between), session'))
    (after : Demands (next value) between session' count there) :
    Demands (operation >>= next) state session count there

theorem Decoder.Demands.fails {operation : DecodeM α} {state : Decoding} {session : Session}
    {count : Nat} {there : Reader} {e : Error}
    (demands : Demands operation state session count there)
    (fails : Reader.result (Reader.bytes count) there = .error e) :
    ∃ last, (operation.run state).run.run session = (.error e, last) := by
  induction demands with
  | @reading _ operation state _ _ session demands =>
    have failed := demands.result fails
    rw [Reader.result] at failed
    cases ends : operation.run.run state.reader with
    | mk result after =>
      rw [ends] at failed
      cases failed
      rw [reading_eq_throw ends]
      exact ⟨session, rfl⟩
  | first now ih =>
    obtain ⟨last, failed⟩ := ih fails
    rw [run_bind_eq, failed]
    exact ⟨last, rfl⟩
  | later ends after ih =>
    rw [run_bind_eq, ends]
    exact ih fails

/-- The recovery of a method comes to ask for a number of bytes of its record, and where it does. -/
inductive Recovering.Demands : {α : Type} → RecoverM α → Recovering → Nat → Reader → Prop
  | reading {α : Type} {operation : ReadM α} {reader there : Reader} {count : Nat}
    (state : Recovering) (demands : Reader.Demands operation reader count there) :
    Demands (reading reader operation) state count there
  | decoding {decoder : Decoder} {reader there : Reader} {length count : Nat} {state : Recovering}
    (demands : Decoder.Demands
      (decoder.decodeFrom (Spot.start reader length state.session).range 0)
      (Spot.start reader length state.session).state state.session count there) :
    Demands (resolving (decoder.decode reader length)) state count there
  | first {α β : Type} {operation : RecoverM α} {next : α → RecoverM β} {state : Recovering}
    {count : Nat} {there : Reader} (now : Demands operation state count there) :
    Demands (operation >>= next) state count there
  | later {α β : Type} {operation : RecoverM α} {next : α → RecoverM β}
    {state between : Recovering} {count : Nat} {there : Reader} {value : α}
    (ends : operation.run.run state = (.ok value, between))
    (after : Demands (next value) between count there) :
    Demands (operation >>= next) state count there

theorem Recovering.Demands.fails {operation : RecoverM α} {state : Recovering} {count : Nat}
    {there : Reader} {e : Error} (demands : Demands operation state count there)
    (fails : Reader.result (Reader.bytes count) there = .error e) :
    ∃ last, operation.run.run state = (.error e, last) := by
  induction demands with
  | @reading _ operation reader _ _ state demands =>
    have failed := demands.result fails
    rw [Reader.result] at failed
    rw [Recovering.reading]
    generalize operation.run.run reader = outcome at failed
    obtain ⟨result, after⟩ := outcome
    cases failed
    exact ⟨state, rfl⟩
  | @decoding decoder reader _ length _ state demands =>
    obtain ⟨last, failed⟩ := demands.fails fails
    have outcome : (Spot.start reader length state.session).outcome decoder = (.error e, last) :=
      failed
    rw [run_resolving, Decoder.decode_run_eq, outcome]
    exact ⟨_, rfl⟩
  | first now ih =>
    obtain ⟨last, failed⟩ := ih fails
    exact ⟨last, run_bind_error failed⟩
  | later ends after ih =>
    rw [run_bind_ok ends]
    exact ih fails

/-- The recovery of a method comes to ask for bytes of its record some of which are unreadable. -/
def Workbench.Meets (bench : Workbench) (session : Session) (stub : Stub) (cause : Error) : Prop :=
  ∃ count there,
    Recovering.Demands (Recovering.recover bench) (bench.begin session stub) count there ∧
      there.Faces bench.methodStream count cause

/-- A method whose record starts behind the last readable byte. -/
theorem Workbench.meets_of_offset {bench : Workbench} {stub : Stub} {key : PositionKey}
    {cause : Error} (inOrder : bench.methodStream.Same bench.methodStream)
    (breaks : bench.methodStream.BreaksWith cause)
    (keyed : PositionKey.decode bench.mask stub.key = .ok key)
    (past : bench.methodStream.plain.length ≤ key.offset.toNat)
    (announced : key.offset.toNat < bench.methodStream.length) (session : Session) :
    bench.Meets session stub cause := by
  have sought := (bench.reader key).seek_run (Nat.lt_trans key.offset.toNat_lt (by decide))
  obtain ⟨count, wanted, header⟩ := MethodHeader.demands_read bench.layout.header _
  have located : (Recovering.lift (PositionKey.decode bench.mask stub.key)).run.run
      (bench.begin session stub) = (.ok key, bench.begin session stub) := by
    rw [keyed]
    rfl
  refine ⟨count, _, .later rfl (.later located (.later rfl (.first (.first
    (.reading _ (.later sought header)))))), inOrder, breaks, wanted, ?_, ?_⟩
  · exact Nat.lt_of_le_of_lt past (Nat.lt_add_of_pos_right wanted)
  · exact Nat.max_lt.mpr ⟨announced, Nat.lt_of_le_of_lt past announced⟩

theorem Workbench.Meets.breaksWith {bench : Workbench} {session : Session} {stub : Stub}
    {cause : Error} (meets : bench.Meets session stub cause) :
    bench.methodStream.BreaksWith cause := by
  obtain ⟨_, _, _, faces⟩ := meets
  exact faces.unreadable.breaks

/-- A method whose record is unreadable is reported as lost, with the cause in words. -/
theorem Workbench.Meets.report {bench : Workbench} {session : Session} {stub : Stub}
    {cause : Error} (meets : bench.Meets session stub cause) :
    (bench.recoverMethod session stub).1.status = .unrecoverable ∧
      (bench.recoverMethod session stub).1.failure = some .format ∧
      (bench.recoverMethod session stub).1.message = some cause.message := by
  obtain ⟨count, there, demands, faces⟩ := meets
  obtain ⟨last, fails⟩ := demands.fails faces.result_bytes
  obtain ⟨-, -, status, failure, message, -⟩ := bench.recoverMethod_charges session stub _ _ fails
  exact ⟨status, failure, message⟩

/-- That a block does not decrypt is a failure of decryption, but whatever comes upon it fails in the
format of its data, with the cause in words: every read of the stream, and the recovery of every
method whose record lies there. Else a read fails only at the end of the data, or as it finds them
malformed. -/
theorem format_of_undecrypted {resource : Stream.Resource} {origin : Stream.Layered}
    {key : PublicKey} (layered : .blocks key ∈ resource.layers)
    (opened : resource.openLayers = .ok origin) :
    (∀ cause, origin.BreaksWith cause → cause.kind = .crypto ∧
      Stream.Blocks.FailsAt key resource.data
        (Stream.Blocks.payloadsOf key resource.data).length cause) ∧
    (∀ {α : Type} {operation : ReadM α}, Reader.Offers operation → ∀ reader : Reader,
      origin.Same reader.view.stream →
        (∀ cause, Reader.Meets origin operation reader cause →
          origin.BreaksWith cause ∧
            Reader.result operation reader = .error (.io cause.message)) ∧
        ∀ e, Reader.result operation reader = .error e →
          e.kind = .format ∧ Reader.FailsWith origin operation reader e) ∧
    ∀ (bench : Workbench) (session : Session) (stub : Stub), bench.methodStream = origin →
      (∀ cause, bench.Meets session stub cause →
        origin.BreaksWith cause ∧
          (bench.recoverMethod session stub).1.status = .unrecoverable ∧
          (bench.recoverMethod session stub).1.failure = some .format ∧
          (bench.recoverMethod session stub).1.message = some cause.message) ∧
      ∀ cause place, origin.BreaksWith cause →
        PositionKey.decode bench.mask stub.key = .ok place →
          origin.plain.length ≤ place.offset.toNat → place.offset.toNat < origin.length →
            bench.Meets session stub cause := by
  refine ⟨fun cause breaks => ?_, fun offers reader same => ⟨fun cause meets => ?_, ?_⟩, ?_⟩
  · have fails := ((Stream.Resource.breaksWith_iff layered opened).mp breaks).2
    exact ⟨fails.isCrypto.kind, fails⟩
  · exact ⟨meets.breaksWith, meets.result⟩
  · intro e failed
    have fails := offers.composed.failsWith_of_result same failed
    exact ⟨fails.kind, fails⟩
  · rintro bench session stub rfl
    refine ⟨fun cause meets => ⟨meets.breaksWith, meets.report⟩,
      fun cause place breaks keyed past announced => ?_⟩
    exact Workbench.meets_of_offset (Stream.Resource.same_openLayers opened).1 breaks keyed past
      announced session

namespace UndecryptedBlock

def key : PublicKey := ⟨0xFFFFFFFFFFFFFFFFFFFFFFEF, 3⟩

/-- Four blocks with 32 bytes behind the length header, and one that does not decrypt. The header
announces 41 bytes. All of the bytes are zero, but for the length of two at the end. -/
def resource : Stream.Resource where
  data := Bytes.ofNatBE 12 0x8D61ACE3ADAD7E390040EBEA ++ Bytes.ofNatBE 12 0x8000000 ++
    Bytes.ofNatBE 12 0x8000000 ++ Bytes.ofNatBE 12 0x965FB2B108481033B05A38A2 ++
    List.replicate 12 0xFF
  layers := [.blocks key]

def stream : Stream.Layered := resource.openLayers.toOption.getD { base := .memory [] }

/-- Of the first method the header lies in the broken block, of the second the handlers, and of the
third the code. -/
def interpreter : Interpreter :=
  { ThreeOutcomes.interpreter with
    methodStream := resource
    methods := [⟨⟨0x06000001⟩, "HgAAAAAAAAA="⟩, ⟨⟨0x06000001⟩, "CwAAAAAAAAA="⟩,
      ⟨⟨0x06000001⟩, "BgAAAAAAAAA="⟩] }

def cause : Error := .crypto "RSA block exceeds modulus"

/-- A reader before the last byte that there is. -/
def reader : Reader := { view := { stream, cursor := { position := 31 } } }

def bench : Workbench where
  settings := {}
  profiles := {}
  layout := {}
  catalog := default
  resolverStream := { base := .memory [] }
  methodStream := stream
  mask := 0

def session : Session := { host := ThreeOutcomes.host }

/-- A method whose record starts in the broken block. -/
def stub : Stub := ⟨⟨0x06000001⟩, "IQAAAAAAAAA="⟩

theorem opened : resource.openLayers = .ok stream :=
  eq_ok_of_isSome (by decide +kernel) { base := .memory [] }

theorem fails : Stream.Blocks.FailsAt key resource.data 4 cause := by
  rw [Stream.Blocks.FailsAt]
  rfl

/-- The block does not decrypt, which is a failure of decryption. Reading two bytes of which one lies
in it fails in the format of the data, and so does the recovery of each of the methods. -/
theorem not_crypto :
    Stream.Blocks.FailsAt key resource.data 4 cause ∧ cause.kind = .crypto ∧
      (match Reader.result Reader.u16 reader with
        | .ok _ => none
        | .error e => some (e.kind, e.message)) = some (.format, cause.message) ∧
      (recoverModule {} ThreeOutcomes.host interpreter).toOption.map
        (fun outcome => outcome.1.methods.map fun report =>
          (report.status, report.failure, report.message)) =
        some (List.replicate 3 (.unrecoverable, some .format, some cause.message)) := by
  refine ⟨fails, rfl, ?_, ?_⟩
  · decide +kernel
  · decide +kernel

theorem layered : .blocks key ∈ resource.layers := List.mem_singleton_self _

theorem breaks : stream.BreaksWith cause :=
  (Stream.Resource.breaksWith_iff layered opened).mpr ⟨by decide +kernel, fails⟩

theorem length_plain : stream.plain.length = 32 := by
  rw [(Stream.Resource.same_openLayers opened).2]
  decide +kernel

theorem length_stream : stream.length = 41 := by decide +kernel

theorem meets_u16 : Reader.Meets stream Reader.u16 reader cause := by
  have unreadable : stream.Unreadable reader.position 2 cause := by
    refine ⟨breaks, by decide, ?_, ?_⟩
    · rw [length_plain]
      decide
    · rw [length_plain, length_stream]
      decide
  exact ⟨2, reader, .first (.first (.bytes 2 reader)),
    (Stream.Resource.same_openLayers opened).1, unreadable⟩

theorem format_of_undecrypted_block :
    .blocks key ∈ resource.layers ∧ resource.openLayers = .ok stream ∧
      Reader.Meets stream Reader.u16 reader cause ∧
      Reader.result Reader.u16 reader = .error (.io cause.message) ∧
      bench.Meets session stub cause ∧
      (bench.recoverMethod session stub).1.status = .unrecoverable ∧
      (bench.recoverMethod session stub).1.failure = some .format := by
  obtain ⟨-, reads, methods⟩ := format_of_undecrypted layered opened
  have inOrder : stream.Same stream := (Stream.Resource.same_openLayers opened).1
  have keyed : PositionKey.decode bench.mask stub.key = .ok ⟨33, 0⟩ := rfl
  have past : stream.plain.length ≤ 33 := by
    rw [length_plain]
    decide
  have announced : 33 < stream.length := by
    rw [length_stream]
    decide
  have meets : bench.Meets session stub cause :=
    (methods bench session stub rfl).2 cause ⟨33, 0⟩ breaks keyed past announced
  obtain ⟨-, status, failure, -⟩ := (methods bench session stub rfl).1 cause meets
  exact ⟨layered, opened, meets_u16, ((reads .u16 reader inOrder).1 cause meets_u16).2, meets, status,
    failure⟩

end UndecryptedBlock

end CilRecovery
