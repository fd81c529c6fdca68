import CilRecovery.Proofs.Extent

/-!
The course of decoding. Decoding goes from instruction to instruction, through guarded ranges too;
its course is the list of the places that it comes to, whether or not it fails in the end.
-/
namespace CilRecovery

/-- A place that decoding comes to, and what is known there. -/
structure Spot where
  range : CodeRange
  offset : Nat
  state : Decoding
  session : Session

/-- How decoding a range ends: whether it stopped early, and what was written. -/
abbrev RangeOutcome := Except Error (Bool × Decoding) × Session

namespace Spot

variable (decoder : Decoder)

/-- How decoding from a place on ends. -/
def outcome (spot : Spot) : RangeOutcome :=
  ((decoder.decodeFrom spot.range spot.offset).run spot.state).run.run spot.session

/-- How decoding the instruction at a place ends. -/
def one (spot : Spot) : Except Error (Decoded × Decoding) × Session :=
  ((decoder.decodeOne spot.range spot.offset).run spot.state).run.run spot.session

/-- The virtual offset at which a reader of the range stands. -/
def reach (spot : Spot) (reader : Reader) : Nat :=
  spot.range.base + (reader.position - spot.range.start)

def overflow (spot : Spot) (reader : Reader) : Error :=
  .malformed ("Virtual offset overflow at " ++ toString (reader.position - spot.range.start))

/-- The place behind the instruction at a place. -/
def resume (spot : Spot) (after : Decoding) (session : Session) : Except Error Spot :=
  if spot.reach after.reader < 0x100000000 then
    if spot.offset < spot.reach after.reader ∧ spot.reach after.reader ≤ spot.range.finish then
      .ok ⟨spot.range, spot.reach after.reader, after, session⟩
    else .error (Decoder.runsPast spot.range (spot.reach after.reader))
  else .error (spot.overflow after.reader)

/-- The first place in a guarded range, and the reader behind the range. -/
def enter (spot : Spot) (size : Nat) (after : Decoding) (session : Session) :
    Except Error (Spot × Reader) × Session :=
  let base := spot.reach after.reader
  if base < 0x100000000 then
    if spot.offset < base ∧ size ≤ spot.range.finish - base then
      match ((decoder.openRange size).run after).run.run session with
      | (.error e, last) => (.error e, last)
      | (.ok (plain, opened), last) =>
        (.ok (⟨⟨base, size, 0⟩, base,
          { opened with
            body := opened.body.skip spot.offset
            reader := { Reader.ofBytes plain opened.reader.profiles with active := .instruction } },
          last⟩, opened.reader), last)
    else (.error (Decoder.exceeds spot.range base size), session)
  else (.error (spot.overflow after.reader), session)

/-- How decoding goes on behind an instruction. -/
def onward (spot : Spot) (after : Decoding) (session : Session) : RangeOutcome :=
  match spot.resume after session with
  | .error e => (.error e, session)
  | .ok next => next.outcome decoder

/-- How decoding goes on with a guarded range and behind it. -/
def through (spot : Spot) (size : Nat) (after : Decoding) (session : Session) : RangeOutcome :=
  match spot.enter decoder size after session with
  | (.error e, last) => (.error e, last)
  | (.ok (inner, outer), _) =>
    match inner.outcome decoder with
    | (.error e, last) => (.error e, last)
    | (.ok (true, ended), last) => (.ok (true, { ended with reader := outer }), last)
    | (.ok (false, ended), last) => spot.onward decoder { ended with reader := outer } last

theorem outcome_of_finish {spot : Spot} (done : spot.range.finish ≤ spot.offset) :
    spot.outcome decoder = (.ok (false, spot.state), spot.session) :=
  Decoder.decodeFrom_end done spot.state spot.session

/-- Decoding a range takes the instruction at hand and goes on from there. -/
theorem outcome_eq {spot : Spot} (inside : spot.offset < spot.range.finish) :
    spot.outcome decoder =
      match spot.one decoder with
      | (.error e, last) => (.error e, last)
      | (.ok (.stopped, after), last) => (.ok (true, after), last)
      | (.ok (.complete, after), last) => spot.onward decoder after last
      | (.ok (.guarded size, after), last) => spot.through decoder size after last := by
  have tail (after : Decoding) (session : Session) :
      ((do
        let next ← Decoder.currentOffset spot.range
        if _advances : spot.offset < next ∧ next ≤ spot.range.finish then
          decoder.decodeFrom spot.range next
        else throw (Decoder.runsPast spot.range next) : DecodeM Bool).run after).run.run session =
      spot.onward decoder after session := by
    rw [Decoder.run_bind_eq, Decoder.currentOffset_run_eq, onward, resume, reach, overflow]
    by_cases short : spot.range.base + (after.reader.position - spot.range.start) < 0x100000000
    · rw [if_pos short, if_pos short]
      dsimp only
      split <;> rfl
    · rw [if_neg short, if_neg short]
  rw [outcome, one, Decoder.decodeFrom, dif_pos inside, bind_assoc, Decoder.run_bind_eq]
  generalize ((decoder.decodeOne spot.range spot.offset).run spot.state).run.run spot.session =
    outcome
  obtain ⟨result, last⟩ := outcome
  cases result with
  | error e => rfl
  | ok pair =>
    obtain ⟨decoded, after⟩ := pair
    cases decoded with
    | stopped => rfl
    | complete =>
      simp only [pure_bind, Bool.false_eq_true, if_false]
      exact tail after last
    | guarded size =>
      dsimp only
      rw [bind_assoc, Decoder.run_bind_eq, Decoder.currentOffset_run_eq, through, enter, reach]
      by_cases short : spot.range.base + (after.reader.position - spot.range.start) < 0x100000000
      · rw [if_pos short]
        dsimp only
        rw [if_pos short]
        generalize spot.range.base + (after.reader.position - spot.range.start) = base
        by_cases fits : spot.offset < base ∧ size ≤ spot.range.finish - base
        · rw [dif_pos fits, if_pos fits, bind_assoc, Decoder.run_bind_eq]
          rcases ((decoder.openRange size).run after).run.run last with ⟨_ | ⟨plain, opened⟩, last⟩
          · rfl
          · dsimp only
            rw [bind_assoc, Decoder.run_bind_eq, Decoder.modifyBody_run]
            dsimp only
            rw [Decoder.run_bind_eq, Decoder.within_run_eq]
            dsimp only [outcome]
            generalize ((decoder.decodeFrom ⟨base, size, 0⟩ base).run _).run.run last = inner
            obtain ⟨result, last⟩ := inner
            cases result with
            | error e => rfl
            | ok ended =>
              obtain ⟨stopped, ended⟩ := ended
              cases stopped with
              | true => rfl
              | false => exact tail _ last
        · rw [dif_neg fits, if_neg fits]
          rfl
      · rw [if_neg short]
        dsimp only
        rw [if_neg short]
        rfl

variable {decoder}

theorem of_resume_eq_ok {spot later : Spot} {after : Decoding} {session : Session}
    (resumes : spot.resume after session = .ok later) :
    spot.offset < spot.reach after.reader ∧ spot.reach after.reader ≤ spot.range.finish ∧
      later = ⟨spot.range, spot.reach after.reader, after, session⟩ := by
  rw [resume] at resumes
  split at resumes
  · split at resumes
    · rename_i advances
      cases resumes
      exact ⟨advances.1, advances.2, rfl⟩
    · cases resumes
  · cases resumes

theorem of_enter_eq_ok {spot inner : Spot} {size : Nat} {after : Decoding} {outer : Reader}
    {session last : Session}
    (enters : spot.enter decoder size after session = (.ok (inner, outer), last)) :
    spot.offset < spot.reach after.reader ∧
      size ≤ spot.range.finish - spot.reach after.reader ∧
      ∃ plain opened, ((decoder.openRange size).run after).run.run session =
          (.ok (plain, opened), last) ∧ outer = opened.reader ∧
        inner = ⟨⟨spot.reach after.reader, size, 0⟩, spot.reach after.reader,
          { opened with
            body := opened.body.skip spot.offset
            reader := { Reader.ofBytes plain opened.reader.profiles with active := .instruction } },
          last⟩ := by
  rw [enter] at enters
  dsimp only at enters
  split at enters
  · split at enters
    · rename_i fits
      cases opens : ((decoder.openRange size).run after).run.run session with
      | mk result final =>
        rw [opens] at enters
        cases result with
        | error e => cases enters
        | ok pair =>
          cases enters
          exact ⟨fits.1, fits.2, pair.1, pair.2, rfl, rfl, rfl⟩
    · cases enters
  · cases enters

end Spot

/-- The course of decoding from a place on: the places that it comes to, and how it ends. -/
inductive Course (decoder : Decoder) : Spot → List Spot → RangeOutcome → Prop where
  | finish {spot : Spot} (done : spot.range.finish ≤ spot.offset) :
    Course decoder spot [] (.ok (false, spot.state), spot.session)
  | fails {spot : Spot} {e : Error} {last : Session} (inside : spot.offset < spot.range.finish)
    (ends : spot.one decoder = (.error e, last)) : Course decoder spot [spot] (.error e, last)
  | stops {spot : Spot} {after : Decoding} {last : Session}
    (inside : spot.offset < spot.range.finish)
    (ends : spot.one decoder = (.ok (.stopped, after), last)) :
    Course decoder spot [spot] (.ok (true, after), last)
  | runsOut {spot : Spot} {after : Decoding} {last : Session} {e : Error}
    (inside : spot.offset < spot.range.finish)
    (ends : spot.one decoder = (.ok (.complete, after), last))
    (past : spot.resume after last = .error e) : Course decoder spot [spot] (.error e, last)
  | next {spot later : Spot} {after : Decoding} {last : Session} {visited : List Spot}
    {outcome : RangeOutcome} (inside : spot.offset < spot.range.finish)
    (ends : spot.one decoder = (.ok (.complete, after), last))
    (resumes : spot.resume after last = .ok later) (rest : Course decoder later visited outcome) :
    Course decoder spot (spot :: visited) outcome
  | closed {spot : Spot} {size : Nat} {after : Decoding} {last last' : Session} {e : Error}
    (inside : spot.offset < spot.range.finish)
    (ends : spot.one decoder = (.ok (.guarded size, after), last))
    (enters : spot.enter decoder size after last = (.error e, last')) :
    Course decoder spot [spot] (.error e, last')
  | innerFails {spot inner : Spot} {size : Nat} {after : Decoding} {outer : Reader}
    {last last' final : Session} {visited : List Spot} {e : Error}
    (inside : spot.offset < spot.range.finish)
    (ends : spot.one decoder = (.ok (.guarded size, after), last))
    (enters : spot.enter decoder size after last = (.ok (inner, outer), last'))
    (within : Course decoder inner visited (.error e, final)) :
    Course decoder spot (spot :: visited) (.error e, final)
  | innerStops {spot inner : Spot} {size : Nat} {after ended : Decoding} {outer : Reader}
    {last last' final : Session} {visited : List Spot} (inside : spot.offset < spot.range.finish)
    (ends : spot.one decoder = (.ok (.guarded size, after), last))
    (enters : spot.enter decoder size after last = (.ok (inner, outer), last'))
    (within : Course decoder inner visited (.ok (true, ended), final)) :
    Course decoder spot (spot :: visited) (.ok (true, { ended with reader := outer }), final)
  | innerRunsOut {spot inner : Spot} {size : Nat} {after ended : Decoding} {outer : Reader}
    {last last' final : Session} {visited : List Spot} {e : Error}
    (inside : spot.offset < spot.range.finish)
    (ends : spot.one decoder = (.ok (.guarded size, after), last))
    (enters : spot.enter decoder size after last = (.ok (inner, outer), last'))
    (within : Course decoder inner visited (.ok (false, ended), final))
    (past : spot.resume { ended with reader := outer } final = .error e) :
    Course decoder spot (spot :: visited) (.error e, final)
  | innerNext {spot inner later : Spot} {size : Nat} {after ended : Decoding} {outer : Reader}
    {last last' final : Session} {visited visited' : List Spot} {outcome : RangeOutcome}
    (inside : spot.offset < spot.range.finish)
    (ends : spot.one decoder = (.ok (.guarded size, after), last))
    (enters : spot.enter decoder size after last = (.ok (inner, outer), last'))
    (within : Course decoder inner visited (.ok (false, ended), final))
    (resumes : spot.resume { ended with reader := outer } final = .ok later)
    (rest : Course decoder later visited' outcome) :
    Course decoder spot (spot :: (visited ++ visited')) outcome

/-- A course ends as decoding does. -/
theorem Course.outcome_eq {decoder : Decoder} {spot : Spot} {visited : List Spot}
    {outcome : RangeOutcome} (course : Course decoder spot visited outcome) :
    spot.outcome decoder = outcome := by
  induction course with
  | finish done => exact Spot.outcome_of_finish decoder done
  | fails inside ends | stops inside ends => rw [Spot.outcome_eq decoder inside, ends]
  | runsOut inside ends past =>
    rw [Spot.outcome_eq decoder inside, ends]
    dsimp only
    rw [Spot.onward, past]
  | next inside ends resumes rest ih =>
    rw [Spot.outcome_eq decoder inside, ends]
    dsimp only
    rw [Spot.onward, resumes]
    exact ih
  | closed inside ends enters =>
    rw [Spot.outcome_eq decoder inside, ends]
    dsimp only
    rw [Spot.through, enters]
  | innerFails inside ends enters within ih | innerStops inside ends enters within ih =>
    rw [Spot.outcome_eq decoder inside, ends]
    dsimp only
    rw [Spot.through, enters]
    dsimp only
    rw [ih]
  | innerRunsOut inside ends enters within past ih =>
    rw [Spot.outcome_eq decoder inside, ends]
    dsimp only
    rw [Spot.through, enters]
    dsimp only
    rw [ih]
    dsimp only
    rw [Spot.onward, past]
  | innerNext inside ends enters within resumes rest ih ih' =>
    rw [Spot.outcome_eq decoder inside, ends]
    dsimp only
    rw [Spot.through, enters]
    dsimp only
    rw [ih]
    dsimp only
    rw [Spot.onward, resumes]
    exact ih'

/-- Decoding from every place has a course. -/
theorem Spot.exists_course (decoder : Decoder) (spot : Spot) :
    ∃ visited, Course decoder spot visited (spot.outcome decoder) := by
  -- The induction is on what is left of the range; a guarded range is shorter than what is left.
  induction left : spot.range.finish - spot.offset using Nat.strongRecOn generalizing spot with
  | ind left ih =>
    subst left
    by_cases inside : spot.offset < spot.range.finish
    · have later (after : Decoding) (session : Session) {next : Spot}
          (resumes : spot.resume after session = .ok next) :
          ∃ visited, Course decoder next visited (next.outcome decoder) := by
        obtain ⟨forth, short, rfl⟩ := of_resume_eq_ok resumes
        exact ih _ (by dsimp only; omega) _ rfl
      rw [outcome_eq decoder inside]
      cases ends : spot.one decoder with
      | mk result last =>
        cases result with
        | error e => exact ⟨_, .fails inside ends⟩
        | ok pair =>
          obtain ⟨decoded, after⟩ := pair
          cases decoded with
          | stopped => exact ⟨_, .stops inside ends⟩
          | complete =>
            dsimp only
            rw [onward]
            cases resumes : spot.resume after last with
            | error e => exact ⟨_, .runsOut inside ends resumes⟩
            | ok next =>
              obtain ⟨visited, rest⟩ := later after last resumes
              exact ⟨_, .next inside ends resumes rest⟩
          | guarded size =>
            dsimp only
            rw [through]
            cases enters : spot.enter decoder size after last with
            | mk result last' =>
              cases result with
              | error e => exact ⟨_, .closed inside ends enters⟩
              | ok pair =>
                obtain ⟨inner, outer⟩ := pair
                obtain ⟨visited, within⟩ :
                    ∃ visited, Course decoder inner visited (inner.outcome decoder) := by
                  obtain ⟨forth, fits, _, _, _, _, rfl⟩ := of_enter_eq_ok enters
                  exact ih size (by omega) _
                    (Nat.add_sub_cancel_left (spot.reach after.reader) size)
                dsimp only
                cases finished : inner.outcome decoder with
                | mk result final =>
                  rw [finished] at within
                  cases result with
                  | error e => exact ⟨_, .innerFails inside ends enters within⟩
                  | ok pair =>
                    obtain ⟨stopped, ended⟩ := pair
                    cases stopped with
                    | true => exact ⟨_, .innerStops inside ends enters within⟩
                    | false =>
                      dsimp only
                      rw [onward]
                      cases resumes : spot.resume { ended with reader := outer } final with
                      | error e => exact ⟨_, .innerRunsOut inside ends enters within resumes⟩
                      | ok next =>
                        obtain ⟨visited', rest⟩ := later _ final resumes
                        exact ⟨_, .innerNext inside ends enters within resumes rest⟩
    · have done := Nat.not_lt.mp inside
      rw [outcome_of_finish decoder done]
      exact ⟨[], .finish done⟩

namespace Spot

variable {decoder : Decoder} {spot : Spot}

/-- What says how far the instruction at a place reaches. -/
def head (decoder : Decoder) (spot : Spot) : Except Error ItemHead :=
  Reader.result (Reader.itemHead decoder.catalog) spot.state.reader

theorem one_eq (decoder : Decoder) (spot : Spot) :
    spot.one decoder =
      match (Reader.item decoder.catalog).run.run spot.state.reader with
      | (.ok item, reader) =>
        ((decoder.act spot.range spot.offset item).run
          { spot.state with reader }).run.run spot.session
      | (.error e, _) => (.error e, spot.session) := by
  rw [one, Decoder.decodeOne_eq, Decoder.run_bind_eq]
  cases ends : (Reader.item decoder.catalog).run.run spot.state.reader with
  | mk result reader =>
    cases result with
    | ok item => rw [Decoder.reading_run ends]
    | error e =>
      rw [Decoder.reading_eq_throw ends]
      rfl

/-- The instruction at a place has been read and acted upon. -/
theorem exists_item_of_one {decoded : Decoded} {after : Decoding} {last : Session}
    (ends : spot.one decoder = (.ok (decoded, after), last)) :
    ∃ item reader, (Reader.item decoder.catalog).run.run spot.state.reader = (.ok item, reader) ∧
      ((decoder.act spot.range spot.offset item).run { spot.state with reader }).run.run
        spot.session = (.ok (decoded, after), last) := by
  rw [one_eq] at ends
  generalize (Reader.item decoder.catalog).run.run spot.state.reader = outcome at ends ⊢
  obtain ⟨result, reader⟩ := outcome
  cases result with
  | error e => cases ends
  | ok item => exact ⟨item, reader, rfl, ends⟩

/-- The instruction at a place has been read, and dealt with. -/
structure Taken (decoder : Decoder) (spot : Spot) (decoded : Decoded) (after : Decoding)
    (head : ItemHead) (item : RawItem) : Prop where
  announced : spot.head decoder = .ok head
  is : item.Of head
  passed : spot.state.reader.Passed after.reader head.size
  held : ∀ plain, spot.state.reader.view.Shows plain →
    spot.state.reader.position + head.width ≤ plain.length ∧
      (head.opcode.any VirtualOpcode.isSkipped = false →
        spot.state.reader.position + head.size ≤ plain.length)
  settled : Decoder.Settled spot.range spot.offset { spot.state with reader := after.reader } item
    after decoded

theorem exists_taken {decoded : Decoded} {after : Decoding} {last : Session}
    (ends : spot.one decoder = (.ok (decoded, after), last)) :
    ∃ head item, Taken decoder spot decoded after head item := by
  obtain ⟨item, reader, ran, acts⟩ := exists_item_of_one ends
  have read := (Reader.item_reaches decoder.catalog spot.state.reader).ends
  rw [ran] at read
  obtain ⟨head, announced, is, passed, held⟩ := read
  have settled := Decoder.act_ensures decoder spot.range spot.offset item
    { spot.state with reader } spot.session decoded after last acts
  have kept : after.reader = reader :=
    ((Decoder.blind_act decoder spot.range spot.offset item).of_ok acts).1
  exact ⟨head, item, announced, is, kept ▸ passed, held, kept ▸ settled⟩

/-- Without a head nothing is read. -/
theorem one_of_head_eq_error {e : Error} (unread : spot.head decoder = .error e) :
    spot.one decoder = (.error e, spot.session) ∧ e.isUnread = true := by
  have reached := (Reader.itemHead_reaches decoder.catalog spot.state.reader).ends
  rw [head, Reader.result] at unread
  rw [one_eq, Reader.item, run_bind]
  generalize (Reader.itemHead decoder.catalog).run.run spot.state.reader = outcome at *
  obtain ⟨result, reader⟩ := outcome
  cases unread
  exact ⟨rfl, reached⟩

theorem of_one_eq_error {e : Error} {last : Session} (ends : spot.one decoder = (.error e, last)) :
    (e.isUnread = true ∧ ∀ head, spot.head decoder = .ok head → ∀ plain,
      spot.state.reader.view.Shows plain →
        plain.length < spot.state.reader.position + head.size ∨
          0x10000000000000000 ≤ spot.state.reader.position + head.size) ∨
    ∃ head, ∃ item : RawItem, spot.head decoder = .ok head ∧ item.Of head ∧
      (e.isMalformed = true ∨ item.isLookedUp = true) := by
  have read := (Reader.item_reaches decoder.catalog spot.state.reader).ends
  rw [one_eq] at ends
  generalize (Reader.item decoder.catalog).run.run spot.state.reader = outcome at read ends
  obtain ⟨result, reader⟩ := outcome
  cases result with
  | error e =>
    cases ends
    exact .inl read
  | ok item =>
    obtain ⟨head, announced, is, _⟩ := read
    refine .inr ⟨head, item, announced, is, ?_⟩
    cases own : item.isLookedUp with
    | true => exact .inr rfl
    | false => exact .inl (Decoder.isMalformed_of_act own ends)

/-- The reader stands at the place. -/
def Placed (spot : Spot) : Prop := spot.range.At spot.state.reader spot.offset

theorem Taken.reach_eq {decoded : Decoded} {after : Decoding} {head : ItemHead} {item : RawItem}
    (taken : Taken decoder spot decoded after head item) (placed : spot.Placed) :
    spot.reach after.reader = spot.offset + head.size := by
  rw [reach, taken.passed.position, ← placed.here]
  have started := placed.started
  omega

theorem placed_of_resume {later : Spot} {after : Decoding} {session : Session}
    (resumes : spot.resume after session = .ok later)
    (started : spot.range.start ≤ after.reader.position) : later.Placed := by
  obtain ⟨_, _, rfl⟩ := of_resume_eq_ok resumes
  exact ⟨started, rfl⟩

theorem placed_of_enter {inner : Spot} {size : Nat} {after : Decoding} {outer : Reader}
    {session last : Session}
    (enters : spot.enter decoder size after session = (.ok (inner, outer), last)) :
    inner.Placed := by
  obtain ⟨_, _, _, _, _, _, rfl⟩ := of_enter_eq_ok enters
  exact ⟨Nat.zero_le _, rfl⟩

/-- A guarded range is passed over as a whole. -/
theorem passed_of_enter {inner : Spot} {size : Nat} {after : Decoding} {outer : Reader}
    {session last : Session}
    (enters : spot.enter decoder size after session = (.ok (inner, outer), last)) :
    after.reader.Passed outer size ∧ inner.state.body.stop = after.body.stop ∧
      (0 < size → ∀ plain, after.reader.view.Shows plain →
        after.reader.position + size ≤ plain.length) := by
  obtain ⟨_, _, plain, opened, opens, rfl, rfl⟩ := of_enter_eq_ok enters
  have ensures : Decoder.Ensures (decoder.openRange size) after fun _ opened =>
      after.reader.Passed opened.reader size ∧ opened.body = after.body ∧
        (0 < size → ∀ plain, after.reader.view.Shows plain →
          after.reader.position + size ≤ plain.length) := by
    refine .get_bind (.modify_bind ?_)
    split
    · exact .throw
    · split
      · exact .throw
      · refine .bind (.read fun bytes reader ends => .pure ?_)
        obtain ⟨passed, held⟩ := (Reader.spans_bytes size).of_ok ends
        exact ⟨passed, rfl, held rfl⟩
  obtain ⟨passed, same, held⟩ := ensures session plain opened last opens
  refine ⟨passed, ?_, held⟩
  change opened.body.stop = after.body.stop
  rw [same]

/-- A guarded range is entered with the body that was written before it. -/
theorem body_of_enter {inner : Spot} {size : Nat} {after : Decoding} {outer : Reader}
    {session last : Session}
    (enters : spot.enter decoder size after session = (.ok (inner, outer), last)) :
    inner.state.body = after.body.skip spot.offset := by
  obtain ⟨_, _, plain, opened, opens, _, rfl⟩ := of_enter_eq_ok enters
  have kept := (Decoder.openRange_ensures decoder size after session plain opened last opens).1
  change opened.body.skip spot.offset = _
  rw [kept]

theorem started_of_one {decoded : Decoded} {after : Decoding} {last : Session}
    (placed : spot.Placed) (ends : spot.one decoder = (.ok (decoded, after), last)) :
    spot.range.start ≤ after.reader.position := by
  obtain ⟨head, item, taken⟩ := exists_taken ends
  rw [taken.passed.position]
  exact Nat.le_trans placed.started (Nat.le_add_right _ _)

theorem started_of_enter {inner : Spot} {size : Nat} {after : Decoding} {outer : Reader}
    {last last' : Session} (placed : spot.Placed)
    (ends : spot.one decoder = (.ok (.guarded size, after), last))
    (enters : spot.enter decoder size after last = (.ok (inner, outer), last')) :
    spot.range.start ≤ outer.position := by
  rw [(passed_of_enter enters).1.position]
  exact Nat.le_trans (started_of_one placed ends) (Nat.le_add_right _ _)

end Spot

namespace Course

variable {decoder : Decoder} {spot : Spot} {visited : List Spot} {outcome : RangeOutcome}

/-- What holds of a place, of the place behind it and of the first place in a guarded range, holds
of all places that decoding comes to. -/
theorem invariant {holds : Spot → Prop} (course : Course decoder spot visited outcome)
    (start : holds spot)
    (next : ∀ {spot later : Spot} {after : Decoding} {last : Session}, holds spot →
      spot.one decoder = (.ok (.complete, after), last) → spot.resume after last = .ok later →
      holds later)
    (enter : ∀ {spot inner : Spot} {size : Nat} {after : Decoding} {outer : Reader}
      {last last' : Session}, holds spot → spot.one decoder = (.ok (.guarded size, after), last) →
      spot.enter decoder size after last = (.ok (inner, outer), last') → holds inner)
    (pass : ∀ {spot inner later : Spot} {size : Nat} {after ended : Decoding} {outer : Reader}
      {last last' final : Session}, holds spot →
      spot.one decoder = (.ok (.guarded size, after), last) →
      spot.enter decoder size after last = (.ok (inner, outer), last') →
      spot.resume { ended with reader := outer } final = .ok later → holds later) :
    ∀ other ∈ visited, holds other ∧ other.offset < other.range.finish := by
  induction course with
  | finish done => simp
  | fails inside ends | stops inside ends | runsOut inside ends past | closed inside ends enters =>
    simpa using ⟨start, inside⟩
  | next inside ends resumes rest ih =>
    exact List.forall_mem_cons.mpr ⟨⟨start, inside⟩, ih (next start ends resumes)⟩
  | innerFails inside ends enters within ih | innerStops inside ends enters within ih
  | innerRunsOut inside ends enters within past ih =>
    exact List.forall_mem_cons.mpr ⟨⟨start, inside⟩, ih (enter start ends enters)⟩
  | innerNext inside ends enters within resumes rest ih ih' =>
    refine List.forall_mem_cons.mpr ⟨⟨start, inside⟩, List.forall_mem_append.mpr ⟨?_, ?_⟩⟩
    · exact ih (enter start ends enters)
    · exact ih' (pass start ends enters resumes)

/-- Decoding comes to the place that it starts from, if there is code left. -/
theorem start_mem (course : Course decoder spot visited outcome)
    (inside : spot.offset < spot.range.finish) : spot ∈ visited := by
  cases course with
  | finish done => exact absurd inside (Nat.not_lt.mpr done)
  | _ => exact List.mem_cons_self

/-- How a place that decoding comes to lies in the range: in the range itself, where the same plain
text is shown, or in a guarded range in it. -/
structure Under (range : CodeRange) (reader : Reader) (spot : Spot) : Prop where
  placed : spot.Placed
  short : spot.offset < spot.range.finish → spot.range.finish ≤ range.finish
  where_ : spot.range = range ∧
      (∀ plain, reader.view.Shows plain → spot.state.reader.view.Shows plain) ∨
    range.base < spot.range.base

/-- The place behind a place lies in the same range. -/
theorem Under.resume {range : CodeRange} {reader : Reader} {spot later : Spot} {after : Decoding}
    {session : Session} (under : Under range reader spot)
    (resumes : spot.resume after session = .ok later)
    (started : spot.range.start ≤ after.reader.position)
    (shows : ∀ plain, spot.state.reader.view.Shows plain → after.reader.view.Shows plain) :
    Under range reader later := by
  have placed := Spot.placed_of_resume resumes started
  obtain ⟨forth, _, rfl⟩ := Spot.of_resume_eq_ok resumes
  refine ⟨placed, fun inside => under.short (Nat.lt_trans forth inside), under.where_.imp_left ?_⟩
  rintro ⟨same, shown⟩
  exact ⟨same, fun plain is => shows plain (shown plain is)⟩

/-- Decoding comes only to places in its range. -/
theorem under (course : Course decoder spot visited outcome) (placed : spot.Placed) :
    ∀ other ∈ visited, Under spot.range spot.state.reader other ∧
      other.offset < other.range.finish := by
  refine course.invariant ⟨placed, fun _ => Nat.le_refl _, .inl ⟨rfl, fun _ => id⟩⟩ ?_ ?_ ?_
  · intro spot later after last under ends resumes
    obtain ⟨head, item, taken⟩ := Spot.exists_taken ends
    exact under.resume resumes (Spot.started_of_one under.placed ends) taken.passed.shows
  · intro spot inner size after outer last last' under ends enters
    have placed := Spot.placed_of_enter enters
    have base : spot.range.base ≤ spot.offset := by
      rw [← under.placed.here]
      omega
    obtain ⟨forth, fits, _, _, _, _, rfl⟩ := Spot.of_enter_eq_ok enters
    refine ⟨placed, ?_, .inr ?_⟩
    · intro (inside : spot.reach after.reader < spot.reach after.reader + size)
      change spot.reach after.reader + size ≤ _
      have short := under.short (by omega)
      omega
    · change _ < spot.reach after.reader
      rcases under.where_ with ⟨same, _⟩ | further
      · rw [← same]
        omega
      · omega
  · intro spot inner later size after ended outer last last' final under ends enters resumes
    obtain ⟨head, item, taken⟩ := Spot.exists_taken ends
    obtain ⟨passed, _⟩ := Spot.passed_of_enter enters
    exact under.resume resumes (Spot.started_of_enter under.placed ends enters)
      fun plain shown => passed.shows plain (taken.passed.shows plain shown)

/-- If every step of decoding leads to a body in some relation to the one before, then decoding
that does not fail leads from every body on its way to the last one. -/
theorem relates {relates : DecodedBody → DecodedBody → Prop}
    [IsPreorder DecodedBody relates]
    (one : ∀ {spot : Spot} {decoded : Decoded} {after : Decoding} {last : Session},
      spot.one decoder = (.ok (decoded, after), last) → relates spot.state.body after.body)
    (skip : ∀ (body : DecodedBody) (offset : Nat), relates body (body.skip offset))
    (course : Course decoder spot visited outcome) {stopped : Bool} {ended : Decoding}
    {last : Session} (ends : outcome = (.ok (stopped, ended), last)) :
    relates spot.state.body ended.body ∧
      ∀ other ∈ visited, ∃ decoded after last, other.one decoder = (.ok (decoded, after), last) ∧
        relates after.body ended.body := by
  induction course generalizing stopped ended last with
  | finish done =>
    cases ends
    exact ⟨refl_of relates _, by simp⟩
  | fails | runsOut | closed | innerFails | innerRunsOut => cases ends
  | stops inside now =>
    cases ends
    exact ⟨one now, by simpa using ⟨_, _, ⟨_, now⟩, refl_of relates _⟩⟩
  | next inside now resumes rest ih =>
    obtain ⟨_, _, rfl⟩ := Spot.of_resume_eq_ok resumes
    obtain ⟨later, others⟩ := ih ends
    exact ⟨trans_of relates (one now) later,
      List.forall_mem_cons.mpr ⟨⟨_, _, _, now, later⟩, others⟩⟩
  | innerStops inside now enters within ih =>
    cases ends
    obtain ⟨through, others⟩ := ih rfl
    rw [Spot.body_of_enter enters] at through
    have later := trans_of relates (skip _ _) through
    exact ⟨trans_of relates (one now) later,
      List.forall_mem_cons.mpr ⟨⟨_, _, _, now, later⟩, others⟩⟩
  | innerNext inside now enters within resumes rest ih ih' =>
    obtain ⟨_, _, rfl⟩ := Spot.of_resume_eq_ok resumes
    obtain ⟨through, others⟩ := ih rfl
    obtain ⟨behind, others'⟩ := ih' ends
    rw [Spot.body_of_enter enters] at through
    have later := trans_of relates (trans_of relates (skip _ _) through) behind
    refine ⟨trans_of relates (one now) later, List.forall_mem_cons.mpr ⟨⟨_, _, _, now, later⟩,
      List.forall_mem_append.mpr ⟨fun other member => ?_, others'⟩⟩⟩
    obtain ⟨decoded, after, last, here, there⟩ := others other member
    exact ⟨decoded, after, last, here, trans_of relates there behind⟩

end Course

/-- Where decoding starts. -/
def Spot.start (reader : Reader) (length : Nat) (session : Session) : Spot :=
  ⟨⟨0, length, reader.position⟩, 0,
    { reader := { reader with active := .instruction }, body := { length } }, session⟩

theorem Spot.placed_start (reader : Reader) (length : Nat) (session : Session) :
    (start reader length session).Placed :=
  ⟨Nat.le_refl _, by rw [start, Nat.zero_add]; exact Nat.sub_self _⟩

theorem Spot.finish_start (reader : Reader) (length : Nat) (session : Session) :
    (start reader length session).range.finish = length := Nat.zero_add length

/-- How decoding ends, in terms of its course. -/
theorem Decoder.decode_run_eq (decoder : Decoder) (reader : Reader) (length : Nat)
    (session : Session) :
    (decoder.decode reader length).run.run session =
      match (Spot.start reader length session).outcome decoder with
      | (.ok (_, after), last) => (.ok (after.body.settle, after.reader), last)
      | (.error e, last) => (.error e, last) := by
  rw [decode, run_bind, Spot.outcome, Spot.start]
  generalize ((decoder.decodeFrom ⟨0, length, reader.position⟩ 0).run _).run.run session = outcome
  rcases outcome with ⟨_ | ⟨_, _⟩, _⟩ <;> rfl

theorem Decoder.exists_of_decode_eq_ok {decoder : Decoder} {reader after : Reader} {length : Nat}
    {body : DecodedBody} {session last : Session}
    (ends : (decoder.decode reader length).run.run session = (.ok (body, after), last)) :
    ∃ stopped state, (Spot.start reader length session).outcome decoder =
        (.ok (stopped, state), last) ∧ body = state.body.settle ∧ after = state.reader := by
  rw [decode_run_eq] at ends
  generalize (Spot.start reader length session).outcome decoder = outcome at ends
  obtain ⟨result, final⟩ := outcome
  rcases result with e | ⟨stopped, state⟩
  · cases ends
  · cases ends
    exact ⟨stopped, state, rfl, rfl, rfl⟩

end CilRecovery
