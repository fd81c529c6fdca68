import CilRecovery.Proofs.Bounds
import CilRecovery.Proofs.Places

/-!
Early stops. Decoding that stops at a code ends right behind it and what belongs to it: the code is
the last instruction, the only one that was not recovered, and nothing behind it plays a part.
-/
namespace CilRecovery

/-- A body ends at the code at which decoding stopped, and at no other. -/
def DecodedBody.EndsAt (body : DecodedBody) (stop : DecodeStop) : Prop :=
  ∃ front, body.instructions = front ++ [.placeholder stop.code stop.offset] ∧
    ∀ instruction ∈ front, instruction.isPlaceholder = false ∧
      ∃ offset, instruction.virtualOffset = some offset ∧ offset < stop.offset

theorem DecodedBody.Decodes.endsAt {body : DecodedBody} {length : Nat} {lines : List Line}
    (decodes : body.Decodes length lines) {stop : DecodeStop} (stopped : body.stop = some stop) :
    body.EndsAt stop := by
  obtain ⟨front, is, recovered⟩ := decodes.stops stop stopped
  refine ⟨front, is, fun instruction member => ⟨recovered instruction member, ?_⟩⟩
  have placed := decodes.lists.placed
  have rising := Listing.places_rising decodes.lists.rising
  rw [is, List.map_append] at placed
  obtain ⟨low, high, split, lows, highs⟩ := List.map_eq_append_iff.mp placed.symm
  have last : high = [stop.offset] :=
    (List.map_injective_iff.mpr (Option.some_injective _)) highs
  rw [split, last, List.pairwise_append] at rising
  have there : instruction.virtualOffset ∈ low.map some := by
    rw [lows]
    exact List.mem_map_of_mem member
  obtain ⟨offset, below, same⟩ := List.mem_map.mp there
  exact ⟨offset, same.symm, rising.2.2 offset below stop.offset (by simp)⟩

/-- The head of an instruction is its code, and the number of targets behind it. -/
theorem Reader.of_itemHead {catalog : Catalog} {reader : Reader} {head : ItemHead}
    (announced : result (itemHead catalog) reader = .ok head) :
    result u16 reader = .ok head.code ∧ head.opcode = catalog.get? head.code.toUInt32 ∧
      (head.counts = true → ∃ count : UInt32,
        result (do let _ ← u16; u32) reader = .ok count ∧ head.targets = count.toNat) := by
  rw [result] at announced
  cases outcome : (itemHead catalog).run.run reader with
  | mk ended after =>
    rw [outcome] at announced
    cases announced
    obtain ⟨code, between, first, rest⟩ := exists_of_run_bind_eq_ok outcome
    have counted (count : UInt32) (final : Reader)
        (reads : u32.run.run between = (.ok count, final)) :
        result (do let _ ← u16; u32) reader = .ok count := by
      rw [result, run_bind_ok first, reads]
    rw [itemHeadFor] at rest
    dsimp only at rest
    rw [result, first]
    split at rest
    · rename_i counts
      obtain ⟨count, final, reads, rest⟩ := exists_of_run_bind_eq_ok rest
      cases rest
      exact ⟨rfl, rfl, fun _ => ⟨count, counted count _ reads, rfl⟩⟩
    · rename_i counts
      cases rest
      exact ⟨rfl, rfl, fun some_ => absurd some_ counts⟩

namespace Spot

variable {decoder : Decoder} {spot : Spot} {stop : DecodeStop}

/-- Decoding has stopped behind a code and what the catalog says belongs to it. -/
inductive Synchronized (decoder : Decoder) (spot : Spot) (stop : DecodeStop) (code : UInt16) :
    Prop where
  | unknown (reason : stop.reason = .unknownCode)
    (absent : decoder.catalog.get? code.toUInt32 = none)
    (finish : stop.finish = stop.offset + 2)
  | operand (opcode : VirtualOpcode) (width : Nat) (reason : stop.reason = .unidentified)
    (known : decoder.catalog.get? code.toUInt32 = some opcode)
    (kind : opcode.kind = .unidentified) (wide : opcode.operand.virtualWidth? = some width)
    (finish : stop.finish = stop.offset + 2 + width)
  /-- The number of targets stands behind the code. -/
  | table (opcode : VirtualOpcode) (count : UInt32) (reason : stop.reason = .unidentified)
    (known : decoder.catalog.get? code.toUInt32 = some opcode)
    (kind : opcode.kind = .unidentified) (wide : opcode.operand.virtualWidth? = none)
    (counted : Reader.result (do let _ ← Reader.u16; Reader.u32) spot.state.reader = .ok count)
    (finish : stop.finish = stop.offset + 2 + (4 + 4 * count.toNat))

/-- Decoding stops at the code that stands at a place, and behind all that belongs to it. -/
structure StopsBehind (decoder : Decoder) (spot : Spot) (stop : DecodeStop) (code : UInt16) :
    Prop where
  read : Reader.result Reader.u16 spot.state.reader = .ok code
  same : stop.code = code.toNat
  offset : stop.offset = spot.offset
  synchronized : Synchronized decoder spot stop code

theorem StopsWith.stopsBehind {head : ItemHead} (known : StopsWith decoder spot stop head) :
    StopsBehind decoder spot stop head.code := by
  obtain ⟨read, opcode, counted⟩ := Reader.of_itemHead known.announced
  refine ⟨read, known.code, known.offset, ?_⟩
  have finish := known.finish
  rw [← known.offset] at finish
  rcases known.reason with ⟨none_, reason⟩ | ⟨⟨found, some_, kind⟩, reason, _⟩
  · rw [ItemHead.size_of_unknown none_] at finish
    exact .unknown reason (opcode.symm.trans none_) finish
  · have taken : found.isRefused = false := by
      rw [VirtualOpcode.isRefused, VirtualOpcode.takesWord, kind]
      rfl
    rw [ItemHead.size, ItemHead.width, ItemHead.counts, ItemHead.left, some_] at finish
    cases wide : found.operand.virtualWidth? with
    | some width =>
      refine .operand found width reason (opcode.symm.trans some_) kind wide ?_
      simp only [Option.any_some, taken, wide] at finish
      simpa [Nat.add_assoc] using finish
    | none =>
      have counts : head.counts = true := by
        rw [ItemHead.counts, some_, Option.any_some, wide, taken]
        rfl
      obtain ⟨count, reads, same⟩ := counted counts
      refine .table found count reason (opcode.symm.trans some_) kind wide reads ?_
      simp only [Option.any_some, taken, wide, same] at finish
      simp at finish
      omega

end Spot

namespace Course

variable {decoder : Decoder} {spot : Spot} {visited : List Spot} {outcome : RangeOutcome}

/-- If decoding comes to a place of the range itself where it stops, it ends there. -/
theorem ends_of_stopped (course : Course decoder spot visited outcome) (placed : spot.Placed)
    {other : Spot} (mem : other ∈ visited) (same : other.range = spot.range) {after : Decoding}
    {last : Session} (stops : other.one decoder = (.ok (.stopped, after), last)) :
    outcome = (.ok (true, after), last) := by
  -- A place in a guarded range lies in another range, which starts further on.
  have apart {spot inner : Spot} {size : Nat} {before : Decoding} {outer : Reader}
      {session final : Session} {visited : List Spot} {outcome : RangeOutcome}
      (placed : spot.Placed) (same : other.range = spot.range)
      (enters : spot.enter decoder size before session = (.ok (inner, outer), final))
      (within : Course decoder inner visited outcome) : other ∉ visited := by
    intro mem
    obtain ⟨under, _⟩ := within.under (Spot.placed_of_enter enters) other mem
    have base : spot.range.base ≤ spot.offset := by
      rw [← placed.here]
      exact Nat.le_add_right _ _
    obtain ⟨forth, _, _, _, _, _, rfl⟩ := Spot.of_enter_eq_ok enters
    have further : spot.reach before.reader ≤ other.range.base := by
      rcases under.where_ with ⟨is, _⟩ | further
      · rw [is]
      · exact Nat.le_of_lt further
    rw [same] at further
    omega
  induction course with
  | finish done => cases mem
  | fails inside ends | runsOut inside ends past | closed inside ends enters =>
    cases List.mem_singleton.mp mem
    cases ends.symm.trans stops
  | stops inside ends =>
    cases List.mem_singleton.mp mem
    cases ends.symm.trans stops
    rfl
  | next inside ends resumes rest ih =>
    rcases List.mem_cons.mp mem with rfl | mem
    · cases ends.symm.trans stops
    · have placed' := Spot.placed_of_resume resumes (Spot.started_of_one placed ends)
      obtain ⟨_, _, rfl⟩ := Spot.of_resume_eq_ok resumes
      exact ih placed' mem same
  | innerFails inside ends enters within ih | innerStops inside ends enters within ih
  | innerRunsOut inside ends enters within past ih =>
    rcases List.mem_cons.mp mem with rfl | mem
    · cases ends.symm.trans stops
    · exact absurd mem (apart placed same enters within)
  | innerNext inside ends enters within resumes rest ih ih' =>
    rcases List.mem_cons.mp mem with rfl | mem
    · cases ends.symm.trans stops
    · rcases List.mem_append.mp mem with mem | mem
      · exact absurd mem (apart placed same enters within)
      · have placed' := Spot.placed_of_resume resumes (Spot.started_of_enter placed ends enters)
        obtain ⟨_, _, rfl⟩ := Spot.of_resume_eq_ok resumes
        exact ih' placed' mem same

end Course

namespace Decoder

variable {decoder : Decoder} {reader after : Reader} {length : Nat} {session last : Session}
  {body : DecodedBody}

/-- Decoding that stops in the code itself leaves the reader behind the code at which it stopped. -/
theorem position_of_stops {visited : List Spot} {spot : Spot} {stop : DecodeStop}
    (ends : (decoder.decode reader length).run.run session = (.ok (body, after), last))
    (course : Course decoder (.start reader length session) visited
      ((Spot.start reader length session).outcome decoder))
    (mem : spot ∈ visited) (here : spot.range = ⟨0, length, reader.position⟩)
    (stops : spot.Stops decoder stop) :
    spot.state.reader.position = reader.position + stop.offset ∧
      after.position = reader.position + stop.finish := by
  have placed := Spot.placed_start reader length session
  have at_ := (course.under placed spot mem).1.placed
  obtain ⟨state, final, one, stopped⟩ := stops
  obtain ⟨stop', head, stopped', known, reached⟩ := Spot.exists_stop at_ one
  cases stopped.symm.trans stopped'
  have whole := course.ends_of_stopped placed mem here one
  rw [decode_run_eq, whole] at ends
  have started := Spot.started_of_one at_ one
  have first := at_.started
  have offset := at_.here
  have same := known.offset
  cases ends
  rw [Spot.reach, here] at reached
  rw [here] at started first offset
  dsimp only at reached started first offset
  constructor <;> omega

/-- Decoding that stops in the code itself depends on nothing behind the code at which it
stopped. -/
theorem decode_of_slices {text text' : Bytes} {other : Reader} {count : Nat}
    (ends : (decoder.decode reader length).run.run session = (.ok (body, after), last))
    (reached : after.position = reader.position + count) (seen : reader.Sees text)
    (seen' : other.Sees text') (position : other.position = reader.position)
    (profiles : other.profiles = reader.profiles)
    (same : text'.slice reader.position count = text.slice reader.position count) :
    ∃ after', (decoder.decode other length).run.run session = (.ok (body, after'), last) ∧
      after'.position = after.position := by
  -- The profile in force is set before anything is read.
  have agrees : Reader.Agrees (reader.position + count) reader
      { other with active := reader.active } := by
    refine ⟨position, profiles, rfl, text, text', seen, ⟨seen'.inOrder, seen'.is⟩, ?_⟩
    intro place from_ inside
    have slices := congrArg (·[place - reader.position]?) same
    simp only [Bytes.slice, List.getElem?_take, List.getElem?_drop] at slices
    rwa [if_pos (by omega), if_pos (by omega), Nat.add_sub_cancel' from_] at slices
  have decoded := decode_of_agrees ends agrees (Nat.le_of_eq reached)
  exact decoded

/-- An early stop is synchronized and final. The body ends in the only placeholder; decoding stopped
at a place that it came to, behind the code there and its operand. If that place is not in a guarded
range, the reader stands behind it, and any stream that is the same up to there decodes to the same
body. -/
theorem decode_stopped {stop : DecodeStop}
    (ends : (decoder.decode reader length).run.run session = (.ok (body, after), last))
    (stopped : body.stop = some stop) :
    body.EndsAt stop ∧
      ∃ visited, Course decoder (.start reader length session) visited
          ((Spot.start reader length session).outcome decoder) ∧
        (∃ spot ∈ visited, spot.Stops decoder stop) ∧
        ∀ spot ∈ visited, spot.Stops decoder stop →
          (∃ code, spot.StopsBehind decoder stop code) ∧
          (spot.range = ⟨0, length, reader.position⟩ →
            spot.state.reader.position = reader.position + stop.offset ∧
            after.position = reader.position + stop.finish ∧
            ∀ text other text', reader.Sees text → other.Sees text' →
              other.position = reader.position → other.profiles = reader.profiles →
              text'.slice reader.position stop.finish = text.slice reader.position stop.finish →
                ∃ after', (decoder.decode other length).run.run session =
                    (.ok (body, after'), last) ∧ after'.position = after.position) := by
  obtain ⟨lines, decodes⟩ := decoder.decodes_of_decode ends
  obtain ⟨visited, course⟩ := Spot.exists_course decoder (.start reader length session)
  refine ⟨decodes.endsAt stopped, visited, course, ?_, fun spot mem stops => ⟨?_, fun here => ?_⟩⟩
  · rcases ended_of_decode ends course with ⟨none_, _⟩ | ⟨spot, mem, stop', stops, is, _⟩
    · cases none_.symm.trans stopped
    · cases is.symm.trans stopped
      exact ⟨spot, mem, stops⟩
  · have placed := (course.under (Spot.placed_start reader length session) spot mem).1.placed
    obtain ⟨head, known⟩ := stops.exists_head placed
    exact ⟨head.code, known.stopsBehind⟩
  · obtain ⟨first, reached⟩ := position_of_stops ends course mem here stops
    exact ⟨first, reached, fun text other text' seen seen' position profiles same =>
      decode_of_slices ends reached seen seen' position profiles same⟩

end Decoder

namespace UnidentifiedTable

def nothing : VirtualOpcode := ⟨7, .inlineNone, .cil .nop, ⟨0⟩⟩

def table : VirtualOpcode := ⟨8, .inlineSwitch, .unidentified, ⟨0⟩⟩

def decoder : Decoder where
  catalog := { opcodes := [nothing, table] }
  resolver := { stream := { base := .memory [] } }
  token := ⟨0x06000001⟩

def session : Session := { host := { name := "Sample" } }

/-- An opcode that does nothing, and a table with one target that was not identified. -/
def front : Bytes := [7, 0, 8, 0, 1, 0, 0, 0, 2, 0, 0, 0]

/-- A resource in memory that goes on in some way. -/
def reader : Reader := .ofBytes (front ++ [7, 0, 7, 0]) {}

/-- A masked resource that goes on in another. -/
def masked : Stream.Resource where
  data := Cipher.mask 0x55 0 (front ++ [8])
  layers := [.mask 0x55]

def other : Reader :=
  .ofStream { base := .memory masked.data, maskKey := some 0x55 } .position {}

/-- Without passwords no guarded range is entered. -/
theorem range_of_mem {visited : List Spot} {outcome : RangeOutcome}
    (course : Course decoder (.start reader 16 session) visited outcome) :
    ∀ spot ∈ visited, spot.range = ⟨0, 16, 0⟩ ∧ spot.offset < spot.range.finish := by
  refine course.invariant ?_ ?_ ?_ ?_
  · rfl
  · intro spot later state last same _ resumes
    obtain ⟨_, _, rfl⟩ := Spot.of_resume_eq_ok resumes
    exact same
  · intro spot inner size state outer last last' _ _ enters
    obtain ⟨_, _, plain, opened, opens, _⟩ := Spot.of_enter_eq_ok enters
    rw [Decoder.openRange_run_eq] at opens
    cases opens
  · intro spot inner later size state ended outer last last' final same _ _ resumes
    obtain ⟨_, _, rfl⟩ := Spot.of_resume_eq_ok resumes
    exact same

/-- Decoding stops behind the table, and both resources decode to the same body. -/
theorem decode_stopped_table : ∃ body after after' last,
    (decoder.decode reader 16).run.run session = (.ok (body, after), last) ∧
      body.stop = some ⟨.unidentified, 2, 8, 12⟩ ∧ body.EndsAt ⟨.unidentified, 2, 8, 12⟩ ∧
      after.position = 12 ∧
      (decoder.decode other 16).run.run session = (.ok (body, after'), last) := by
  have found : decoder.stopIn session (front ++ [7, 0, 7, 0]) 16 =
      .ok (some ⟨.unidentified, 2, 8, 12⟩) := by decide +kernel
  rw [Decoder.stopIn] at found
  change Except.map _ ((decoder.decode reader 16).run.run session).1 = _ at found
  cases ends : (decoder.decode reader 16).run.run session with
  | mk result last =>
    rw [ends] at found
    rcases result with e | ⟨body, after⟩
    · cases found
    · have stopped : body.stop = some ⟨.unidentified, 2, 8, 12⟩ := Except.ok.inj found
      obtain ⟨endsAt, visited, course, ⟨spot, mem, stops⟩, behind⟩ :=
        Decoder.decode_stopped ends stopped
      obtain ⟨_, position, final⟩ := (behind spot mem stops).2 (range_of_mem course spot mem).1
      have opened : masked.openLayers = .ok { base := .memory masked.data, maskKey := some 0x55 } :=
        rfl
      obtain ⟨after', same, _⟩ := final _ other _ (Reader.sees_of_shows ⟨_, rfl, rfl⟩)
        (Reader.sees_ofStream opened .position {}) rfl rfl (by decide +kernel)
      exact ⟨body, after, after', last, rfl, stopped, endsAt, position, same⟩

end UnidentifiedTable

end CilRecovery
