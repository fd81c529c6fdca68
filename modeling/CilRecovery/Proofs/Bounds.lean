import CilRecovery.Proofs.Locality

/-!
Decoding and the end of the code. An instruction that reaches past the end of its range makes
decoding fail, except for an unknown code, and what stands behind the code plays no part in decoding
that succeeds.
-/
namespace CilRecovery

/-- Whether more than the code decides what becomes of an instruction: its operand is looked up, or
a password is asked for. -/
def VirtualOpcode.asks (opcode : VirtualOpcode) : Bool :=
  match opcode.kind with
  | .special .packedCall | .special .chainBoundary => !opcode.isRefused
  | .cil _ => opcode.operand.isReference
  | _ => false

theorem VirtualOpcode.isSkipped_of_asks {opcode : VirtualOpcode} (asks : opcode.asks = true) :
    opcode.isSkipped = false := by
  rw [VirtualOpcode.asks] at asks
  rw [isSkipped]
  cases kind : opcode.kind with
  | unidentified =>
    rw [kind] at asks
    cases asks
  | cil cil => rfl
  | special role =>
    rw [kind] at asks
    cases role with
    | noEffect => cases asks
    | packedCall | chainBoundary => rfl

namespace RawItem

/-- What an instruction tells about its opcode. -/
def Tells (opcode : VirtualOpcode) : RawItem → Prop
  | .unknown _ => False
  | .refused _ _ => opcode.isRefused = true
  | .unidentified _ => opcode.kind = .unidentified ∧ opcode.isRefused = false
  | .noEffect => opcode.kind = .special .noEffect ∧ opcode.isRefused = false
  | .packedCall _ | .chainBoundary _ | .reference _ _ _ =>
    opcode.asks = true ∧ opcode.isRefused = false
  | .plain _ _ => opcode.isSkipped = false ∧ opcode.isRefused = false

theorem Of.tells {head : ItemHead} {item : RawItem} {opcode : VirtualOpcode} (is : item.Of head)
    (known : head.opcode = some opcode) : item.Tells opcode := by
  simp only [Of, known] at is
  cases taken : opcode.isRefused with
  | true =>
    rw [if_pos taken] at is
    subst is
    exact taken
  | false =>
    rw [if_neg (by rw [taken]; decide)] at is
    cases kind : opcode.kind with
    | unidentified =>
      rw [kind] at is
      subst is
      exact ⟨kind, taken⟩
    | cil cil =>
      simp only [kind] at is
      split at is
      · rename_i refers
        obtain ⟨position, rfl⟩ := is
        exact ⟨by rw [VirtualOpcode.asks, kind, refers], taken⟩
      · obtain ⟨operand, rfl⟩ := is
        exact ⟨by rw [VirtualOpcode.isSkipped, kind], taken⟩
    | special role =>
      have asks (known : role = .packedCall ∨ role = .chainBoundary) : opcode.asks = true := by
        rw [VirtualOpcode.asks, kind]
        rcases known with rfl | rfl <;> rw [taken] <;> rfl
      rw [kind] at is
      cases role with
      | noEffect =>
        subst is
        exact ⟨kind, taken⟩
      | packedCall =>
        obtain ⟨position, rfl⟩ := is
        exact ⟨asks (.inl rfl), taken⟩
      | chainBoundary =>
        obtain ⟨size, rfl⟩ := is
        exact ⟨asks (.inr rfl), taken⟩

theorem Of.opcode_eq_none {head : ItemHead} {code : UInt16} (is : Of head (.unknown code)) :
    head.opcode = none ∧ head.code = code := by
  cases known : head.opcode with
  | none =>
    simp only [Of, known] at is
    cases is
    exact ⟨rfl, rfl⟩
  | some opcode => exact (is.tells known).elim

theorem Of.exists_unidentified {head : ItemHead} {code : UInt16}
    (is : Of head (.unidentified code)) :
    (∃ opcode, head.opcode = some opcode ∧ opcode.kind = .unidentified) ∧ head.code = code := by
  cases known : head.opcode with
  | none =>
    simp only [Of, known] at is
    cases is
  | some opcode =>
    obtain ⟨kind, taken⟩ := is.tells known
    simp only [Of, known, taken, kind, Bool.false_eq_true, if_false] at is
    cases is
    exact ⟨⟨opcode, rfl, kind⟩, rfl⟩

theorem Of.asks {head : ItemHead} {item : RawItem} {opcode : VirtualOpcode} (is : item.Of head)
    (known : head.opcode = some opcode) (looks : item.isLookedUp = true) : opcode.asks = true := by
  have told := is.tells known
  cases item with
  | packedCall position | reference form operand position => exact told.1
  | _ => cases looks

end RawItem

theorem ItemHead.size_of_unknown {head : ItemHead} (unknown : head.opcode = none) :
    head.size = 2 := by
  rw [size, width, counts, left, unknown]
  rfl

namespace Spot

variable {decoder : Decoder} {spot : Spot}

/-- Decoding stops at a place. -/
def Stops (decoder : Decoder) (spot : Spot) (stop : DecodeStop) : Prop :=
  ∃ after last, spot.one decoder = (.ok (.stopped, after), last) ∧ after.body.stop = some stop

/-- What is known of an early stop. -/
structure StopsWith (decoder : Decoder) (spot : Spot) (stop : DecodeStop) (head : ItemHead) :
    Prop where
  announced : spot.head decoder = .ok head
  offset : stop.offset = spot.offset
  code : stop.code = head.code.toNat
  finish : stop.finish = spot.offset + head.size
  reason : head.opcode = none ∧ stop.reason = .unknownCode ∨
    (∃ opcode, head.opcode = some opcode ∧ opcode.kind = .unidentified) ∧
      stop.reason = .unidentified ∧ stop.finish ≤ spot.range.finish

theorem exists_stop {after : Decoding} {last : Session} (placed : spot.Placed)
    (ends : spot.one decoder = (.ok (.stopped, after), last)) :
    ∃ stop head, after.body.stop = some stop ∧ StopsWith decoder spot stop head ∧
      spot.reach after.reader = stop.finish := by
  obtain ⟨head, item, taken⟩ := exists_taken ends
  obtain ⟨stop, stopped, offset, finish, reason⟩ := taken.settled
  have reached := taken.reach_eq placed
  have finish : stop.finish = spot.reach after.reader := finish
  have known (code : stop.code = head.code.toNat) reason : StopsWith decoder spot stop head :=
    ⟨taken.announced, offset, code, finish.trans reached, reason⟩
  refine ⟨stop, head, stopped, ?_, finish.symm⟩
  rcases reason with ⟨⟨code, rfl, same⟩, unknown⟩ | ⟨⟨code, rfl, same⟩, unidentified, short⟩
  · obtain ⟨none_, rfl⟩ := taken.is.opcode_eq_none
    exact known same (.inl ⟨none_, unknown⟩)
  · obtain ⟨some_, rfl⟩ := taken.is.exists_unidentified
    exact known same (.inr ⟨some_, unidentified, short⟩)

theorem Stops.exists_head {stop : DecodeStop} (stops : spot.Stops decoder stop)
    (placed : spot.Placed) : ∃ head, StopsWith decoder spot stop head := by
  obtain ⟨after, last, ends, stopped⟩ := stops
  obtain ⟨stop', head, stopped', known, _⟩ := exists_stop placed ends
  cases stopped.symm.trans stopped'
  exact ⟨head, known⟩

/-- Only an unknown code may reach past the end of its range, by one byte. -/
theorem Stops.finish_le {stop : DecodeStop} (stops : spot.Stops decoder stop)
    (placed : spot.Placed) (inside : spot.offset < spot.range.finish) :
    stop.finish ≤ spot.range.finish ∨ stop.reason = .unknownCode ∧
      stop.offset + 1 = spot.range.finish ∧ stop.finish = spot.range.finish + 1 := by
  obtain ⟨head, known⟩ := stops.exists_head placed
  have finish := known.finish
  have offset := known.offset
  rcases known.reason with ⟨unknown, reason⟩ | ⟨_, _, short⟩
  · rw [ItemHead.size_of_unknown unknown] at finish
    rcases Nat.lt_or_ge spot.range.finish stop.finish with past | short
    · exact .inr ⟨reason, by omega, by omega⟩
    · exact .inl short
  · exact .inl short

theorem reach_of_passed {reader after : Reader} {count : Nat} (passed : reader.Passed after count)
    (started : spot.range.start ≤ reader.position) :
    spot.reach after = spot.reach reader + count := by
  rw [reach, reach, passed.position]
  omega

/-- How decoding fails behind an instruction that reaches past the end of its range. -/
def beyond (spot : Spot) (reader : Reader) : Error :=
  if spot.reach reader < 0x100000000 then Decoder.runsPast spot.range (spot.reach reader)
  else spot.overflow reader

theorem isMalformed_beyond (spot : Spot) (reader : Reader) :
    (spot.beyond reader).isMalformed = true := by
  rw [beyond]
  split <;> rfl

theorem resume_of_past {after : Decoding} {session : Session}
    (past : spot.range.finish < spot.reach after.reader) :
    spot.resume after session = .error (spot.beyond after.reader) := by
  rw [resume, beyond]
  split
  · exact if_neg fun advances => Nat.not_lt.mpr advances.2 past
  · rfl

/-- A guarded range behind the end of its range is not entered, or is empty and of no use. -/
theorem through_of_past (decoder : Decoder) (size : Nat) (last : Session) {after : Decoding}
    (past : spot.range.finish < spot.reach after.reader) :
    ∃ e, spot.through decoder size after last = (.error e, last) ∧
      (e.isMalformed = true ∨ size = 0 ∧ decoder.rangeKey after.nextRange = .error e) := by
  rw [through, enter]
  dsimp only
  by_cases short : spot.reach after.reader < 0x100000000
  · rw [if_pos short]
    by_cases fits : spot.offset < spot.reach after.reader ∧
        size ≤ spot.range.finish - spot.reach after.reader
    · have empty : size = 0 := by omega
      subst empty
      rw [if_pos fits, Decoder.openRange_run_eq, Reader.bytes_zero_run]
      cases key : decoder.rangeKey after.nextRange with
      | error e => exact ⟨e, rfl, .inr ⟨rfl, rfl⟩⟩
      | ok key =>
        dsimp only
        rw [outcome_of_finish decoder (Nat.le_refl _)]
        dsimp only
        rw [onward, resume_of_past]
        · exact ⟨_, rfl, .inl (isMalformed_beyond spot after.reader)⟩
        · exact past
    · rw [if_neg fits]
      exact ⟨_, rfl, .inl rfl⟩
  · rw [if_neg short]
    exact ⟨_, rfl, .inl rfl⟩

/-- How decoding fails at an instruction that reaches past the end of its range: the code is
malformed, unless what the instruction asks for is not found or its bytes cannot be read. -/
def FailsPast (decoder : Decoder) (spot : Spot) (head : ItemHead) (opcode : VirtualOpcode)
    (e : Error) (last : Session) : Prop :=
  e.isMalformed = true ∨
  opcode.asks = true ∧ (spot.one decoder = (.error e, last) ∨
    ∃ after, spot.one decoder = (.ok (.guarded 0, after), last) ∧
      decoder.rangeKey after.nextRange = .error e) ∨
  e.isUnread = true ∧ ∀ plain, spot.state.reader.view.Shows plain →
    plain.length < spot.state.reader.position + head.size ∨
      0x10000000000000000 ≤ spot.state.reader.position + head.size

theorem fails_of_past {head : ItemHead} {opcode : VirtualOpcode} (placed : spot.Placed)
    (inside : spot.offset < spot.range.finish) (announced : spot.head decoder = .ok head)
    (known : head.opcode = some opcode)
    (past : spot.range.finish < spot.offset + head.size ∨ opcode.isRefused = true) :
    ∃ e last, spot.outcome decoder = (.error e, last) ∧
      FailsPast decoder spot head opcode e last := by
  rw [outcome_eq decoder inside]
  cases ends : spot.one decoder with
  | mk result last =>
    cases result with
    | error e =>
      refine ⟨e, last, rfl, ?_⟩
      rcases of_one_eq_error ends with ⟨unread, short⟩ | ⟨head', item, announced', is, how⟩
      · exact .inr (.inr ⟨unread, short head announced⟩)
      · cases announced.symm.trans announced'
        exact how.imp id fun looks => .inl ⟨is.asks known looks, .inl ends⟩
    | ok pair =>
      obtain ⟨decoded, after⟩ := pair
      obtain ⟨head', item, taken⟩ := exists_taken ends
      cases announced.symm.trans taken.announced
      have reached := taken.reach_eq placed
      have told := taken.is.tells known
      have settled := taken.settled
      cases decoded with
      | stopped =>
        obtain ⟨stop, _, _, finish, ⟨⟨code, rfl, _⟩, _⟩ | ⟨⟨code, rfl, _⟩, _, short⟩⟩ := settled
        · exact told.elim
        · have finish : stop.finish = spot.reach after.reader := finish
          rcases past with past | refused
          · omega
          · cases refused.symm.trans told.2
      | complete =>
        have past : spot.range.finish < spot.reach after.reader := by
          rcases past with past | refused
          · rwa [reached]
          · cases item with
            | refused code operand => cases settled.1
            | unknown code => exact told.elim
            | _ => cases refused.symm.trans told.2
        dsimp only
        rw [onward, resume_of_past past]
        exact ⟨_, last, rfl, .inl (isMalformed_beyond spot after.reader)⟩
      | guarded size =>
        obtain ⟨⟨count, rfl⟩, _⟩ := settled
        have past : spot.range.finish < spot.reach after.reader := by
          rcases past with past | refused
          · rwa [reached]
          · cases refused.symm.trans told.2
        obtain ⟨e, fails, how⟩ := through_of_past decoder size last past
        refine ⟨e, last, fails, how.imp id ?_⟩
        rintro ⟨rfl, unknown⟩
        exact .inl ⟨told.1, .inr ⟨after, ends, unknown⟩⟩

end Spot

namespace Course

variable {decoder : Decoder} {spot : Spot} {visited : List Spot} {outcome : RangeOutcome}

/-- Decoding stops early only if there is code left. -/
theorem inside_of_stopped {after : Decoding} {last : Session}
    (course : Course decoder spot visited (.ok (true, after), last)) :
    spot.offset < spot.range.finish := by
  cases course <;> assumption

/-- If decoding fails from a place on that it comes to, it fails. -/
theorem fails_of_mem (course : Course decoder spot visited outcome) {other : Spot}
    (mem : other ∈ visited) {e : Error} {last : Session}
    (fails : other.outcome decoder = (.error e, last)) : outcome = (.error e, last) := by
  have whole := course.outcome_eq
  induction course with
  | finish done => cases mem
  | fails inside ends | stops inside ends | runsOut inside ends past | closed inside ends enters =>
    cases List.mem_singleton.mp mem
    exact whole.symm.trans fails
  | next inside ends resumes rest ih =>
    rcases List.mem_cons.mp mem with rfl | mem
    · exact whole.symm.trans fails
    · exact ih mem rest.outcome_eq
  | innerFails inside ends enters within ih =>
    rcases List.mem_cons.mp mem with rfl | mem
    · exact whole.symm.trans fails
    · exact ih mem within.outcome_eq
  | innerStops inside ends enters within ih | innerRunsOut inside ends enters within past ih =>
    rcases List.mem_cons.mp mem with rfl | mem
    · exact whole.symm.trans fails
    · cases ih mem within.outcome_eq
  | innerNext inside ends enters within resumes rest ih ih' =>
    rcases List.mem_cons.mp mem with rfl | mem
    · exact whole.symm.trans fails
    · rcases List.mem_append.mp mem with mem | mem
      · cases ih mem within.outcome_eq
      · exact ih' mem rest.outcome_eq

/-- Decoding that succeeds ends at the end of its range, or where it stopped early. -/
def Ended (decoder : Decoder) (spot : Spot) (visited : List Spot) : RangeOutcome → Prop
  | (.error _, _) => True
  | (.ok (false, after), _) =>
    spot.reach after.reader = spot.range.finish ∧ after.body.stop = spot.state.body.stop
  | (.ok (true, after), _) => ∃ other ∈ visited, ∃ stop, other.Stops decoder stop ∧
    after.body.stop = some stop ∧
      (spot.reach after.reader = stop.finish ∨ spot.reach after.reader ≤ spot.range.finish)

theorem Ended.mono {visited' : List Spot} (ended : Ended decoder spot visited outcome)
    (more : visited ⊆ visited') : Ended decoder spot visited' outcome := by
  obtain ⟨result, last⟩ := outcome
  rcases result with e | ⟨stopped, after⟩
  · trivial
  · cases stopped with
    | false => exact ended
    | true =>
      obtain ⟨other, mem, rest⟩ := ended
      exact ⟨other, more mem, rest⟩

/-- Decoding ends as it does from the place behind an instruction on. -/
theorem Ended.resume {later : Spot} {after : Decoding} {session : Session}
    (ended : Ended decoder later visited outcome) (resumes : spot.resume after session = .ok later)
    (same : after.body.stop = spot.state.body.stop) : Ended decoder spot visited outcome := by
  obtain ⟨_, _, rfl⟩ := Spot.of_resume_eq_ok resumes
  obtain ⟨result, last⟩ := outcome
  rcases result with e | ⟨stopped, final⟩
  · trivial
  · cases stopped with
    | false => exact ⟨ended.1, ended.2.trans same⟩
    | true => exact ended

theorem ended (course : Course decoder spot visited outcome) (placed : spot.Placed)
    (inside : spot.offset ≤ spot.range.finish) : Ended decoder spot visited outcome := by
  induction course with
  | finish done =>
    refine ⟨?_, rfl⟩
    rw [Spot.reach, placed.here]
    omega
  | fails inside ends | runsOut inside ends past | closed inside ends enters
  | innerFails inside ends enters within ih | innerRunsOut inside ends enters within past ih =>
    trivial
  | @stops spot after last _ ends =>
    obtain ⟨stop, head, stopped, known, reached⟩ := Spot.exists_stop placed ends
    exact ⟨spot, List.mem_singleton_self spot, stop, ⟨after, last, ends, stopped⟩, stopped,
      .inl reached⟩
  | next _ ends resumes rest ih =>
    obtain ⟨head, item, taken⟩ := Spot.exists_taken ends
    have ended := ih (Spot.placed_of_resume resumes (Spot.started_of_one placed ends))
      (by obtain ⟨_, short, rfl⟩ := Spot.of_resume_eq_ok resumes; exact short)
    exact (ended.resume resumes taken.settled.2).mono (List.subset_cons_self _ _)
  | @innerStops spot inner size after _ _ _ _ _ _ _ ends enters within ih =>
    obtain ⟨passed, _⟩ := Spot.passed_of_enter enters
    have placed' := Spot.placed_of_enter enters
    have started := Spot.started_of_one placed ends
    obtain ⟨forth, fits, _, _, _, _, rfl⟩ := Spot.of_enter_eq_ok enters
    obtain ⟨other, mem, stop, stops, stopped, _⟩ := ih placed' (Nat.le_add_right _ _)
    have filled : spot.reach after.reader < spot.reach after.reader + size :=
      within.inside_of_stopped
    refine ⟨other, List.mem_cons_of_mem _ mem, stop, stops, stopped, .inr ?_⟩
    rw [Spot.reach_of_passed passed started]
    omega
  | innerNext _ ends enters within resumes rest ih ih' =>
    obtain ⟨head, item, taken⟩ := Spot.exists_taken ends
    obtain ⟨passed, kept, _⟩ := Spot.passed_of_enter enters
    have same := (ih (Spot.placed_of_enter enters)
      (by obtain ⟨_, _, _, _, _, _, rfl⟩ := Spot.of_enter_eq_ok enters
          exact Nat.le_add_right _ _)).2
    have ended := ih' (Spot.placed_of_resume resumes (Spot.started_of_enter placed ends enters))
      (by obtain ⟨_, short, rfl⟩ := Spot.of_resume_eq_ok resumes; exact short)
    refine (ended.resume resumes ?_).mono fun _ mem =>
      List.mem_cons_of_mem _ (List.mem_append_right _ mem)
    exact (same.trans kept).trans taken.settled.2

end Course

namespace Decoder

/-- Where decoding some bytes stops early, if it does not fail. -/
def stopIn (decoder : Decoder) (session : Session) (code : Bytes) (length : Nat) :
    Except Error (Option DecodeStop) :=
  ((decoder.decode (.ofBytes code {}) length).run.run session).1.map fun result => result.1.stop

/-- Decoding that succeeds ends at the end of the code, or where it stopped early. -/
theorem ended_of_decode {decoder : Decoder} {reader after : Reader} {length : Nat}
    {body : DecodedBody} {session last : Session} {visited : List Spot}
    (ends : (decoder.decode reader length).run.run session = (.ok (body, after), last))
    (course : Course decoder (.start reader length session) visited
      ((Spot.start reader length session).outcome decoder)) :
    body.stop = none ∧ after.position = reader.position + length ∨
      ∃ spot ∈ visited, ∃ stop, spot.Stops decoder stop ∧ body.stop = some stop ∧
        (after.position = reader.position + stop.finish ∨
          after.position ≤ reader.position + length) := by
  obtain ⟨stopped, state, whole, rfl, rfl⟩ := exists_of_decode_eq_ok ends
  have ended := course.ended (Spot.placed_start reader length session) (Nat.zero_le _)
  have forth : reader.position ≤ state.reader.position := course.forth whole
  have reached : (Spot.start reader length session).reach state.reader =
      state.reader.position - reader.position := Nat.zero_add _
  rw [whole] at ended
  cases stopped with
  | false =>
    obtain ⟨here, none_⟩ := ended
    rw [reached, Spot.finish_start] at here
    exact .inl ⟨none_, by omega⟩
  | true =>
    obtain ⟨spot, mem, stop, stops, is, here⟩ := ended
    rw [reached, Spot.finish_start] at here
    exact .inr ⟨spot, mem, stop, stops, is, by omega⟩

/-- Decoding that succeeds stays in the code, but for an unknown code at its very end. -/
theorem finish_le_of_decode {decoder : Decoder} {reader after : Reader} {length : Nat}
    {body : DecodedBody} {session last : Session}
    (ends : (decoder.decode reader length).run.run session = (.ok (body, after), last)) :
    (∀ stop, body.stop = some stop → stop.finish ≤ length ∨ stop.reason = .unknownCode ∧
      stop.offset + 1 = length ∧ stop.finish = length + 1) ∧
    ((∀ stop, body.stop = some stop → stop.finish ≤ length) →
      after.position ≤ reader.position + length) := by
  obtain ⟨visited, course⟩ := Spot.exists_course decoder (.start reader length session)
  rcases ended_of_decode ends course with ⟨none_, here⟩ | ⟨spot, mem, stop, stops, is, here⟩
  · refine ⟨fun stop is => ?_, fun _ => Nat.le_of_eq here⟩
    rw [none_] at is
    cases is
  · obtain ⟨under, inside⟩ := course.under (Spot.placed_start reader length session) spot mem
    have short := under.short inside
    rw [Spot.finish_start] at short
    refine ⟨fun stop' is' => ?_, fun fits => ?_⟩
    · cases is.symm.trans is'
      rcases stops.finish_le under.placed inside with fits | ⟨unknown, offset, past⟩
      · exact .inl (Nat.le_trans fits short)
      · rcases Nat.lt_or_ge spot.range.finish length with before | at_
        · exact .inl (by omega)
        · exact .inr ⟨unknown, by omega, by omega⟩
    · have fits := fits stop is
      omega

/-- Decoding and the end of the code. An instruction that reaches past the end of its range, or
that cannot be read, makes decoding fail; decoding that succeeds stops at most one byte behind the
end, in an unknown code, and otherwise does not see what is behind the end. -/
theorem decode_bounded (decoder : Decoder) (reader : Reader) (length : Nat) (session : Session) :
    ∃ visited, Course decoder (.start reader length session) visited
        ((Spot.start reader length session).outcome decoder) ∧
      (∀ spot ∈ visited, spot.offset < spot.range.finish ∧ spot.range.finish ≤ length ∧
        (∀ e, spot.head decoder = .error e → e.isUnread = true ∧
          (decoder.decode reader length).run.run session = (.error e, spot.session)) ∧
        ∀ head opcode, spot.head decoder = .ok head → head.opcode = some opcode →
          spot.range.finish < spot.offset + head.size ∨ opcode.isRefused = true →
            ∃ e last, (decoder.decode reader length).run.run session = (.error e, last) ∧
              spot.FailsPast decoder head opcode e last) ∧
      ∀ body after last,
        (decoder.decode reader length).run.run session = (.ok (body, after), last) →
        (∀ stop, body.stop = some stop → stop.finish ≤ length ∨ stop.reason = .unknownCode ∧
          stop.offset + 1 = length ∧ stop.finish = length + 1) ∧
        ((∀ stop, body.stop = some stop → stop.finish ≤ length) →
          ∀ other, Reader.Twin (reader.position + length) reader other →
            ∃ after',
              (decoder.decode other length).run.run session = (.ok (body, after'), last)) := by
  obtain ⟨visited, course⟩ := Spot.exists_course decoder (.start reader length session)
  have placed := Spot.placed_start reader length session
  have fails {spot : Spot} (mem : spot ∈ visited) {e : Error} {last : Session}
      (ends : spot.outcome decoder = (.error e, last)) :
      (decoder.decode reader length).run.run session = (.error e, last) := by
    rw [decode_run_eq, course.fails_of_mem mem ends]
  refine ⟨visited, course, fun spot mem => ?_, fun body after last ends => ?_⟩
  · obtain ⟨under, inside⟩ := course.under placed spot mem
    refine ⟨inside, Spot.finish_start reader length session ▸ under.short inside, ?_, ?_⟩
    · intro e unread
      obtain ⟨ends, unread⟩ := Spot.one_of_head_eq_error unread
      refine ⟨unread, fails mem ?_⟩
      rw [Spot.outcome_eq decoder inside, ends]
    · intro head opcode announced known past
      obtain ⟨e, last, ends, how⟩ := Spot.fails_of_past under.placed inside announced known past
      exact ⟨e, last, fails mem ends, how⟩
  · obtain ⟨stops, within⟩ := finish_le_of_decode ends
    refine ⟨stops, fun fits other twin => ?_⟩
    obtain ⟨after', same, _⟩ := decode_mirrored ends twin (within fits)
    exact ⟨after', same⟩

end Decoder

namespace BehindTheEnd

def constant : VirtualOpcode := ⟨7, .inlineI, .cil .ldcI4, ⟨0⟩⟩

def text : VirtualOpcode := ⟨8, .inlineString, .cil .ldstr, ⟨0⟩⟩

/-- A decoder without operand records. -/
def decoder : Decoder where
  catalog := { opcodes := [constant, text] }
  resolver := { stream := { base := .memory [5, 0] } }
  token := ⟨0x06000001⟩

def session : Session := { host := { name := "Sample" } }

/-- An unknown code of which only the first byte is part of the code ends decoding, without an
error; and a position of which only the first half is part of the code is looked up. -/
theorem stopIn_behind :
    decoder.stopIn session [0x34, 0x12] 1 = .ok (some ⟨.unknownCode, 0, 0x1234, 2⟩) ∧
      decoder.stopIn session [8, 0, 5, 0, 0, 0] 4 = .error .outOfBounds := by
  decide +kernel

/-- An operand of which only the first half is part of the code. -/
theorem decode_bounded_constant : ∃ e last,
    (decoder.decode (.ofBytes [7, 0, 5, 0, 0, 0] {}) 4).run.run session = (.error e, last) ∧
      e.isMalformed = true := by
  obtain ⟨visited, course, bounded, _⟩ :=
    decoder.decode_bounded (.ofBytes [7, 0, 5, 0, 0, 0] {}) 4 session
  obtain ⟨_, _, _, past⟩ := bounded _ (course.start_mem (by decide))
  obtain ⟨e, last, ends, how⟩ := past ⟨7, some constant, 0⟩ constant (by decide +kernel) rfl
    (by decide)
  refine ⟨e, last, ends, ?_⟩
  rcases how with malformed | ⟨asks, _⟩ | ⟨_, short⟩
  · exact malformed
  · cases asks
  · exact absurd (short [7, 0, 5, 0, 0, 0] ⟨_, rfl, rfl⟩) (by decide)

end BehindTheEnd

end CilRecovery
