import CilRecovery.Proofs.Bounds

/-!
Code that is cut short. Decoding that succeeds has read every code and every operand that it uses,
so memory holds them; an operand that is only passed over need not be there.
-/
namespace CilRecovery

namespace Spot

variable {decoder : Decoder} {spot : Spot}

/-- An operand that is passed over and not read. Memory holds what stands before it. -/
def Dangles (decoder : Decoder) (spot : Spot) (kind : OpcodeKind) (held finish : Nat) : Prop :=
  ∃ head opcode, spot.head decoder = .ok head ∧ head.opcode = some opcode ∧ opcode.kind = kind ∧
    spot.state.reader.position + head.width ≤ held ∧
    spot.state.reader.position + head.size = finish

/-- What memory holds of an instruction. -/
theorem held_of_one {decoded : Decoded} {after : Decoding} {last : Session} {plain : Bytes}
    (ends : spot.one decoder = (.ok (decoded, after), last))
    (shown : spot.state.reader.view.Shows plain) :
    after.reader.view.Shows plain ∧ (after.reader.position ≤ plain.length ∨
      decoded = .complete ∧
        spot.Dangles decoder (.special .noEffect) plain.length after.reader.position ∨
      decoded = .stopped ∧
        spot.Dangles decoder .unidentified plain.length after.reader.position) := by
  obtain ⟨head, item, taken⟩ := exists_taken ends
  obtain ⟨before, whole⟩ := taken.held plain shown
  refine ⟨taken.passed.shows plain shown, ?_⟩
  rw [taken.passed.position]
  cases skipped : head.opcode.any VirtualOpcode.isSkipped with
  | false => exact .inl (whole skipped)
  | true =>
    obtain ⟨opcode, known, skipped⟩ := (Option.any_eq_true _ _).mp skipped
    have told := taken.is.tells known
    have settled := taken.settled
    have dangles {kind : OpcodeKind} (is : opcode.kind = kind) :
        spot.Dangles decoder kind plain.length (spot.state.reader.position + head.size) :=
      ⟨head, opcode, taken.announced, known, is, before, rfl⟩
    cases decoded with
    | complete =>
      refine .inr (.inl ⟨rfl, dangles ?_⟩)
      obtain ⟨completes, _⟩ := settled
      cases item with
      | noEffect => exact told.1
      | plain form operand => cases skipped.symm.trans told.1
      | packedCall position | reference form operand position =>
        cases skipped.symm.trans (VirtualOpcode.isSkipped_of_asks told.1)
      | _ => cases completes
    | stopped =>
      obtain ⟨_, _, _, _, ⟨⟨code, rfl, _⟩, _⟩ | ⟨⟨code, rfl, _⟩, _⟩⟩ := settled
      · exact told.elim
      · exact .inr (.inr ⟨rfl, dangles told.1⟩)
    | guarded size =>
      obtain ⟨⟨count, rfl⟩, _⟩ := settled
      cases skipped.symm.trans (VirtualOpcode.isSkipped_of_asks told.1)

end Spot

namespace Course

variable {decoder : Decoder} {spot : Spot} {visited : List Spot} {outcome : RangeOutcome}

/-- What memory holds of what has been decoded: nothing has, or all that has been passed is there,
or decoding ended in an operand that it only passed over. -/
def Held (decoder : Decoder) (spot : Spot) (visited : List Spot) (plain : Bytes) :
    RangeOutcome → Prop
  | (.error _, _) => True
  | (.ok (stopped, after), _) =>
    stopped = false ∧ spot.range.finish ≤ spot.offset ∧ after.reader = spot.state.reader ∨
    after.reader.position ≤ plain.length ∨
    ∃ other ∈ visited, other.range = spot.range ∧
      other.Dangles decoder (if stopped then .unidentified else .special .noEffect) plain.length
        after.reader.position

/-- Behind an instruction, what is held is that instruction if nothing more has been decoded. -/
theorem Held.resume {later : Spot} {after : Decoding} {session : Session} {plain : Bytes}
    {visited' : List Spot} (held : Held decoder later visited plain outcome)
    (resumes : spot.resume after session = .ok later) (more : visited ⊆ visited')
    (now : after.reader.position ≤ plain.length ∨ ∃ other ∈ visited', other.range = spot.range ∧
      other.Dangles decoder (.special .noEffect) plain.length after.reader.position) :
    Held decoder spot visited' plain outcome := by
  obtain ⟨_, _, rfl⟩ := Spot.of_resume_eq_ok resumes
  obtain ⟨result, last⟩ := outcome
  rcases result with e | ⟨stopped, final⟩
  · trivial
  · refine .inr ?_
    rcases held with ⟨rfl, _, same⟩ | short | ⟨other, mem, there, dangles⟩
    · rw [same]
      exact now
    · exact .inl short
    · exact .inr ⟨other, more mem, there, dangles⟩

/-- What decoding has passed over, memory holds. -/
theorem held (course : Course decoder spot visited outcome) {plain : Bytes}
    (shown : spot.state.reader.view.Shows plain) : Held decoder spot visited plain outcome := by
  induction course with
  | finish done => exact .inl ⟨rfl, done, rfl⟩
  | fails inside ends | runsOut inside ends past | closed inside ends enters
  | innerFails inside ends enters within ih | innerRunsOut inside ends enters within past ih =>
    trivial
  | @stops spot after last inside ends =>
    obtain ⟨_, short | ⟨complete, _⟩ | ⟨_, dangles⟩⟩ := Spot.held_of_one ends shown
    · exact .inr (.inl short)
    · cases complete
    · exact .inr (.inr ⟨spot, List.mem_singleton_self spot, rfl, dangles⟩)
  | @next spot later after last visited outcome inside ends resumes rest ih =>
    obtain ⟨shown, now⟩ := Spot.held_of_one ends shown
    have held := ih (by obtain ⟨_, _, rfl⟩ := Spot.of_resume_eq_ok resumes; exact shown)
    refine held.resume resumes (List.subset_cons_self _ _) ?_
    rcases now with short | ⟨_, dangles⟩ | ⟨stopped, _⟩
    · exact .inl short
    · exact .inr ⟨spot, List.mem_cons_self, rfl, dangles⟩
    · cases stopped
  | innerStops inside ends enters within ih =>
    obtain ⟨shown, _⟩ := Spot.held_of_one ends shown
    obtain ⟨passed, _, whole⟩ := Spot.passed_of_enter enters
    have filled := within.inside_of_stopped
    obtain ⟨_, _, _, _, _, _, rfl⟩ := Spot.of_enter_eq_ok enters
    refine .inr (.inl ?_)
    dsimp only [CodeRange.finish] at filled ⊢
    rw [passed.position]
    exact whole (by omega) _ shown
  | @innerNext _ _ _ size _ _ _ _ _ _ _ _ _ inside ends enters within resumes rest ih ih' =>
    obtain ⟨shown, now⟩ := Spot.held_of_one ends shown
    obtain ⟨passed, _, whole⟩ := Spot.passed_of_enter enters
    have held := ih' (by obtain ⟨_, _, rfl⟩ := Spot.of_resume_eq_ok resumes
                         exact passed.shows _ shown)
    refine held.resume resumes (fun _ mem => List.mem_cons_of_mem _ (List.mem_append_right _ mem))
      (.inl ?_)
    rcases now with short | ⟨complete, _⟩ | ⟨stopped, _⟩
    · dsimp only
      rw [passed.position]
      rcases Nat.eq_zero_or_pos size with empty | filled
      · rw [empty]
        exact short
      · exact whole filled _ shown
    · cases complete
    · cases stopped

end Course

/-- The stream under a reader, cut short. -/
structure Reader.Cut (kept : Nat) (whole cut : Reader) : Prop where
  position : cut.position = whole.position
  profiles : cut.profiles = whole.profiles
  active : cut.active = whole.active
  shown : ∃ plain, whole.view.Shows plain ∧ cut.view.Shows (plain.take kept)

theorem Reader.Cut.twin {kept : Nat} {whole cut : Reader} (is : Cut kept whole cut) :
    Twin kept cut whole := by
  obtain ⟨plain, shown, shown'⟩ := is.shown
  refine ⟨is.position.symm, is.profiles.symm, is.active.symm, _, _, shown', shown, ?_⟩
  rw [List.take_take, Nat.min_self]

namespace Decoder

variable {decoder : Decoder} {reader after : Reader} {length : Nat} {body : DecodedBody}
  {session last : Session} {plain : Bytes}

/-- What memory holds once decoding has succeeded. -/
theorem held_of_decode {visited : List Spot} (shown : reader.view.Shows plain)
    (ends : (decoder.decode reader length).run.run session = (.ok (body, after), last))
    (course : Course decoder (.start reader length session) visited
      ((Spot.start reader length session).outcome decoder)) :
    length = 0 ∨ after.position ≤ plain.length ∨
      ∃ spot ∈ visited, spot.range = ⟨0, length, reader.position⟩ ∧
        spot.Dangles decoder (if body.stop.isSome then .unidentified else .special .noEffect)
          plain.length after.position := by
  obtain ⟨stopped, state, whole, rfl, rfl⟩ := exists_of_decode_eq_ok ends
  have ended := course.ended (Spot.placed_start reader length session) (Nat.zero_le _)
  have held : Course.Held decoder _ visited plain _ := course.held shown
  rw [whole] at ended held
  have same : state.body.settle.stop.isSome = stopped := by
    cases stopped with
    | false =>
      have none_ : state.body.settle.stop = none := ended.2
      rw [none_]
      rfl
    | true =>
      obtain ⟨_, _, stop, _, is, _⟩ := ended
      have is : state.body.settle.stop = some stop := is
      rw [is]
      rfl
  rw [same]
  refine held.imp_left ?_
  rintro ⟨_, done, _⟩
  rw [Spot.finish_start] at done
  exact Nat.le_zero.mp done

/-- An early stop outside of guarded ranges: memory holds what decoding stopped at, but for an
operand that it only passed over. -/
theorem held_of_stops {visited : List Spot} {outcome : RangeOutcome} {spot : Spot}
    {stop : DecodeStop} (shown : reader.view.Shows plain)
    (course : Course decoder (.start reader length session) visited outcome) (mem : spot ∈ visited)
    (stops : spot.Stops decoder stop) (here : spot.range = ⟨0, length, reader.position⟩) :
    reader.position + stop.finish ≤ plain.length ∨
      spot.Dangles decoder .unidentified plain.length (reader.position + stop.finish) := by
  obtain ⟨under, _⟩ := course.under (Spot.placed_start reader length session) spot mem
  have shown : spot.state.reader.view.Shows plain := by
    rcases under.where_ with ⟨_, shows⟩ | further
    · exact shows plain shown
    · rw [here] at further
      exact absurd further (Nat.lt_irrefl 0)
  obtain ⟨after, last, ends, stopped⟩ := stops
  obtain ⟨stop', head, stopped', known, reached⟩ := Spot.exists_stop under.placed ends
  cases stopped.symm.trans stopped'
  have started := Spot.started_of_one under.placed ends
  have position : after.reader.position = reader.position + stop.finish := by
    rw [Spot.reach, here] at reached
    rw [here] at started
    dsimp only at reached started
    omega
  rw [← position]
  obtain ⟨_, short | ⟨complete, _⟩ | ⟨_, dangles⟩⟩ := Spot.held_of_one ends shown
  · exact .inl short
  · cases complete
  · exact .inr dangles

/-- How code decodes of which only so many bytes are there: not at all, unless the end of memory
goes through an operand that is only passed over and decoding ends there. -/
def CutShort (decoder : Decoder) (cut : Reader) (length : Nat) (session : Session) (kept : Nat) :
    Prop :=
  (∃ e last, (decoder.decode cut length).run.run session = (.error e, last)) ∨
  ∃ body after last visited,
    (decoder.decode cut length).run.run session = (.ok (body, after), last) ∧
    Course decoder (.start cut length session) visited
      ((Spot.start cut length session).outcome decoder) ∧
    kept < after.position ∧ ∃ spot ∈ visited, spot.range = ⟨0, length, cut.position⟩ ∧
      spot.Dangles decoder (if body.stop.isSome then .unidentified else .special .noEffect)
        kept after.position

/-- Code is cut short if it is cut inside of what decoding passes over. -/
theorem decode_cut {kept : Nat} {cut : Reader}
    (ends : (decoder.decode reader length).run.run session = (.ok (body, after), last))
    (is : Reader.Cut kept reader cut) (some_ : 0 < length) (inside : kept < after.position) :
    decoder.CutShort cut length session kept := by
  cases again : (decoder.decode cut length).run.run session with
  | mk result last' =>
    rcases result with e | ⟨body', after'⟩
    · exact .inl ⟨e, last', again⟩
    · refine .inr ?_
      obtain ⟨visited, course⟩ := Spot.exists_course decoder (.start cut length session)
      obtain ⟨plain, _, shown⟩ := is.shown
      -- Otherwise the whole would decode as the cut stream does, and end before the cut.
      have past : kept < after'.position := by
        by_contra short
        obtain ⟨after'', same, back⟩ := decode_mirrored again is.twin (Nat.not_lt.mp short)
        rw [ends] at same
        cases same
        omega
      refine ⟨body', after', last', visited, again, course, past, ?_⟩
      have few : (plain.take kept).length ≤ kept := List.length_take_le kept plain
      rcases held_of_decode shown again course with none_ | short | ⟨spot, mem, here, dangles⟩
      · omega
      · omega
      · obtain ⟨head, opcode, announced, known, kind, before, finish⟩ := dangles
        exact ⟨spot, mem, here, head, opcode, announced, known, kind,
          Nat.le_trans before few, finish⟩

/-- Decoding that succeeds has what it accounts for in memory, but for an operand at its end that it
only passed over; and it does not succeed with less. -/
theorem decode_accounted (shown : reader.view.Shows plain)
    (ends : (decoder.decode reader length).run.run session = (.ok (body, after), last)) :
    ∃ visited, Course decoder (.start reader length session) visited
        ((Spot.start reader length session).outcome decoder) ∧
      (body.stop = none → length = 0 ∨ reader.position + length ≤ plain.length ∨
        ∃ spot ∈ visited, spot.range = ⟨0, length, reader.position⟩ ∧
          spot.Dangles decoder (.special .noEffect) plain.length (reader.position + length)) ∧
      (∀ stop, body.stop = some stop → ∃ spot ∈ visited, spot.Stops decoder stop ∧
        (spot.range = ⟨0, length, reader.position⟩ →
          reader.position + stop.finish ≤ plain.length ∨
            spot.Dangles decoder .unidentified plain.length (reader.position + stop.finish))) ∧
      ∀ kept cut, Reader.Cut kept reader cut → 0 < length → kept < after.position →
        decoder.CutShort cut length session kept := by
  obtain ⟨visited, course⟩ := Spot.exists_course decoder (.start reader length session)
  refine ⟨visited, course, ?_, ?_, fun kept cut is some_ inside => decode_cut ends is some_ inside⟩
  · intro none_
    have held := held_of_decode shown ends course
    rcases ended_of_decode ends course with ⟨_, here⟩ | ⟨_, _, stop, _, is, _⟩
    · rwa [none_, here] at held
    · cases none_.symm.trans is
  · intro stop is
    rcases ended_of_decode ends course with ⟨none_, _⟩ | ⟨spot, mem, stop', stops, is', _⟩
    · cases none_.symm.trans is
    · cases is.symm.trans is'
      exact ⟨spot, mem, stops, held_of_stops shown course mem stops⟩

end Decoder

namespace BeyondMemory

def idle : VirtualOpcode := ⟨7, .inlineI, .special .noEffect, ⟨0⟩⟩

def nameless : VirtualOpcode := ⟨8, .inlineI, .unidentified, ⟨0⟩⟩

def decoder : Decoder where
  catalog := { opcodes := [idle, nameless] }
  resolver := { stream := { base := .memory [] } }
  token := ⟨0x06000001⟩

def session : Session := { host := { name := "Sample" } }

/-- Of two opcodes the code is there and the operand is not, and still they decode. -/
theorem stopIn_cut : decoder.stopIn session [7, 0] 6 = .ok none ∧
    decoder.stopIn session [8, 0] 6 = .ok (some ⟨.unidentified, 0, 8, 6⟩) := by
  decide +kernel

/-- Of six bytes of code, the operand of an opcode without effect is not there. -/
theorem decode_accounted_idle : ∃ body after last visited,
    (decoder.decode (.ofBytes [7, 0] {}) 6).run.run session = (.ok (body, after), last) ∧
    body.stop = none ∧
    Course decoder (.start (.ofBytes [7, 0] {}) 6 session) visited
      ((Spot.start (.ofBytes [7, 0] {}) 6 session).outcome decoder) ∧
    ∃ spot ∈ visited, spot.Dangles decoder (.special .noEffect) 2 6 := by
  have ends : decoder.stopIn session [7, 0] 6 = .ok none := by decide +kernel
  rw [Decoder.stopIn] at ends
  cases outcome : (decoder.decode (.ofBytes [7, 0] {}) 6).run.run session with
  | mk result last =>
    rw [outcome] at ends
    rcases result with e | ⟨body, after⟩
    · cases ends
    · have none_ : body.stop = none := Except.ok.inj ends
      have shown : (Reader.ofBytes [7, 0] {}).view.Shows [7, 0] := ⟨_, rfl, rfl⟩
      obtain ⟨visited, course, whole, _⟩ := Decoder.decode_accounted shown outcome
      refine ⟨body, after, last, visited, rfl, none_, course, ?_⟩
      rcases whole none_ with zero | short | ⟨spot, mem, _, dangles⟩
      · cases zero
      · exact absurd short (by decide)
      · exact ⟨spot, mem, dangles⟩

end BeyondMemory

end CilRecovery
