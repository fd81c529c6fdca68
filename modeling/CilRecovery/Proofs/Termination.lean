import Mathlib.Logic.Relation
import CilRecovery.Proofs.Bounds
import CilRecovery.Proofs.Decoding

/-!
Decoding comes to an end. It takes turns, one for each instruction, and a turn may lead to the next
one of the same range and to the first one of a guarded range. None of this asks for progress, and
yet no turns go on for ever: a turn takes two bytes of its range, and a guarded range is shorter
than the range that it stands in.
-/
namespace CilRecovery

/-! ### Turns -/

namespace Spot

variable (decoder : Decoder)

/-- The place of the next turn, wherever it lies in the range. -/
def behind (spot : Spot) (after : Decoding) (session : Session) : Except Error Spot :=
  if spot.reach after.reader < 0x100000000 then
    if spot.reach after.reader ≤ spot.range.finish then
      .ok ⟨spot.range, spot.reach after.reader, after, session⟩
    else .error (Decoder.runsPast spot.range (spot.reach after.reader))
  else .error (spot.overflow after.reader)

/-- The place of the first turn in a guarded range, wherever the range lies, and the reader behind
the range. -/
def opening (spot : Spot) (size : Nat) (after : Decoding) (session : Session) :
    Except Error (Spot × Reader) × Session :=
  let base := spot.reach after.reader
  if base < 0x100000000 then
    if size ≤ spot.range.finish - base then
      match ((decoder.openRange size).run after).run.run session with
      | (.error e, last) => (.error e, last)
      | (.ok (plain, opened), last) =>
        (.ok (⟨⟨base, size, 0⟩, base,
          { opened with
            body := opened.body.skip spot.offset
            reader := { Reader.ofBytes plain opened.reader.profiles with active := .instruction } },
          last⟩, opened.reader), last)
    else (.error (Decoder.exceeds spot.range base size), session)
  else (.error (spot.overflow after.reader), session)

/-- What a turn comes to behind its instruction, if the next turn comes to what `go` says. -/
def afterwards (go : Spot → RangeOutcome) (spot : Spot) (after : Decoding) (session : Session) :
    RangeOutcome :=
  match spot.behind after session with
  | .error e => (.error e, session)
  | .ok later => go later

/-- What a turn comes to, if the turns that it leads to come to what `go` says. -/
def turn (go : Spot → RangeOutcome) (spot : Spot) : RangeOutcome :=
  if spot.offset < spot.range.finish then
    match spot.one decoder with
    | (.error e, last) => (.error e, last)
    | (.ok (.stopped, after), last) => (.ok (true, after), last)
    | (.ok (.complete, after), last) => spot.afterwards go after last
    | (.ok (.guarded size, after), last) =>
      match spot.opening decoder size after last with
      | (.error e, last) => (.error e, last)
      | (.ok (inner, outer), _) =>
        match go inner with
        | (.error e, last) => (.error e, last)
        | (.ok (true, ended), last) => (.ok (true, { ended with reader := outer }), last)
        | (.ok (false, ended), last) => spot.afterwards go { ended with reader := outer } last
  else (.ok (false, spot.state), spot.session)

/-- The first turn in the guarded range that a turn comes to. -/
inductive Opens (spot : Spot) : Spot → Prop where
  | guarded {inner : Spot} {size : Nat} {after : Decoding} {outer : Reader} {last last' : Session}
    (more : spot.offset < spot.range.finish)
    (ends : spot.one decoder = (.ok (.guarded size, after), last))
    (opens : spot.opening decoder size after last = (.ok (inner, outer), last')) : Opens spot inner

/-- The next turn in the range of a turn, whatever a guarded range between them comes to. -/
inductive Resumes (spot : Spot) : Spot → Prop where
  | complete {later : Spot} {after : Decoding} {last : Session}
    (more : spot.offset < spot.range.finish)
    (ends : spot.one decoder = (.ok (.complete, after), last))
    (goes : spot.behind after last = .ok later) : Resumes spot later
  | guarded {inner later : Spot} {size : Nat} {after ended : Decoding} {outer : Reader}
    {last last' final : Session} (more : spot.offset < spot.range.finish)
    (ends : spot.one decoder = (.ok (.guarded size, after), last))
    (opens : spot.opening decoder size after last = (.ok (inner, outer), last'))
    (goes : spot.behind { ended with reader := outer } final = .ok later) : Resumes spot later

/-- A turn that a turn leads to. -/
def Leads (spot later : Spot) : Prop := Opens decoder spot later ∨ Resumes decoder spot later

variable {decoder} {spot : Spot}

/-- A turn only looks at the turns that it leads to. -/
theorem turn_congr {go go' : Spot → RangeOutcome}
    (same : ∀ later, Leads decoder spot later → go later = go' later) :
    spot.turn decoder go = spot.turn decoder go' := by
  have onward (after : Decoding) (last : Session)
      (leads : ∀ later, spot.behind after last = .ok later → Resumes decoder spot later) :
      spot.afterwards go after last = spot.afterwards go' after last := by
    rw [afterwards, afterwards]
    cases goes : spot.behind after last with
    | error e => rfl
    | ok later => exact same later (.inr (leads later goes))
  rw [turn, turn]
  split
  · rename_i more
    cases ends : spot.one decoder with
    | mk result last =>
      rcases result with e | ⟨decoded, after⟩
      · rfl
      · cases decoded with
        | stopped => rfl
        | complete => exact onward after last fun later goes => .complete more ends goes
        | guarded size =>
          dsimp only
          cases opens : spot.opening decoder size after last with
          | mk result last' =>
            rcases result with e | ⟨inner, outer⟩
            · rfl
            · dsimp only
              rw [← same inner (.inl (.guarded more ends opens))]
              rcases go inner with ⟨_ | ⟨_ | _, ended⟩, final⟩
              · rfl
              · exact onward _ final fun later goes => .guarded more ends opens goes
              · rfl
  · rfl

end Spot

/-! ### Progress -/

/-- The head of a guarded range takes six bytes. -/
theorem RawItem.Of.size_of_chainBoundary {head : ItemHead} {count : Int32}
    (is : Of head (.chainBoundary count)) : head.size = 6 := by
  cases known : head.opcode with
  | none =>
    simp only [Of, known] at is
    cases is
  | some opcode =>
    obtain ⟨_, taken⟩ := is.tells known
    simp only [Of, known, taken, Bool.false_eq_true, if_false] at is
    -- Of all kinds of opcodes only one makes such an item.
    have takes : opcode.takesWord = true := by
      rw [VirtualOpcode.takesWord]
      split at is <;> grind
    have word := VirtualOpcode.virtualWidth?_of_takesWord takes taken
    rw [ItemHead.size, ItemHead.width, ItemHead.left, ItemHead.counts, known]
    simp [word, taken]

namespace Spot

variable {decoder : Decoder} {spot later inner : Spot} {size : Nat} {decoded : Decoded}
  {after : Decoding} {outer : Reader} {session last last' : Session}

theorem behind_eq_resume (forth : spot.offset < spot.reach after.reader) :
    spot.behind after session = spot.resume after session := by
  rw [behind, resume]
  simp only [forth, true_and]

theorem opening_eq_enter (forth : spot.offset < spot.reach after.reader) :
    spot.opening decoder size after session = spot.enter decoder size after session := by
  rw [enter]
  simp only [forth, true_and]
  rfl

/-- An instruction takes two bytes at least. -/
theorem add_two_le_reach (placed : spot.Placed)
    (ends : spot.one decoder = (.ok (decoded, after), last)) :
    spot.offset + 2 ≤ spot.reach after.reader := by
  obtain ⟨head, item, taken⟩ := exists_taken ends
  have wide : 2 ≤ head.width := by
    rw [ItemHead.width]
    split <;> decide
  rw [taken.reach_eq placed, ItemHead.size]
  omega

theorem reach_of_guarded (placed : spot.Placed)
    (ends : spot.one decoder = (.ok (.guarded size, after), last)) :
    spot.reach after.reader = spot.offset + 6 := by
  obtain ⟨head, item, taken⟩ := exists_taken ends
  obtain ⟨⟨count, rfl⟩, _⟩ := taken.settled
  rw [taken.reach_eq placed, taken.is.size_of_chainBoundary]

/-- Where the reader stands behind a guarded range. -/
theorem reach_of_enter (placed : spot.Placed)
    (ends : spot.one decoder = (.ok (.guarded size, after), last))
    (enters : spot.enter decoder size after last = (.ok (inner, outer), last')) :
    spot.reach outer = spot.offset + 6 + size := by
  rw [reach_of_passed (passed_of_enter enters).1 (started_of_one placed ends),
    reach_of_guarded placed ends]

theorem enter_of_opening (placed : spot.Placed)
    (ends : spot.one decoder = (.ok (.guarded size, after), last))
    (opens : spot.opening decoder size after last = (.ok (inner, outer), last')) :
    spot.enter decoder size after last = (.ok (inner, outer), last') := by
  rw [← opening_eq_enter, opens]
  have forth := add_two_le_reach placed ends
  omega

/-- Decoding is what its turns come to. -/
theorem outcome_eq_turn (placed : spot.Placed) :
    spot.outcome decoder = spot.turn decoder (outcome decoder) := by
  have onward {after : Decoding} (last : Session) (forth : spot.offset < spot.reach after.reader) :
      spot.onward decoder after last = spot.afterwards (outcome decoder) after last := by
    rw [afterwards, behind_eq_resume forth]
    rfl
  rw [turn]
  split
  · rename_i more
    rw [outcome_eq decoder more]
    cases ends : spot.one decoder with
    | mk result last =>
      rcases result with e | ⟨decoded, after⟩
      · rfl
      · cases decoded with
        | stopped => rfl
        | complete =>
          have forth := add_two_le_reach placed ends
          exact onward last (by omega)
        | guarded size =>
          have forth := add_two_le_reach placed ends
          dsimp only
          rw [through, opening_eq_enter (by omega)]
          cases enters : spot.enter decoder size after last with
          | mk result last' =>
            rcases result with e | ⟨inner, outer⟩
            · rfl
            · dsimp only
              rcases inner.outcome decoder with ⟨_ | ⟨_ | _, ended⟩, final⟩
              · rfl
              · have reached := reach_of_enter placed ends enters
                refine onward final ?_
                dsimp only
                omega
              · rfl
  · rename_i none
    exact outcome_of_finish decoder (Nat.not_lt.mp none)

/-- The next turn in the same range stands two bytes behind at least. -/
theorem Resumes.forth (resumes : Resumes decoder spot later) (placed : spot.Placed) :
    later.Placed ∧ later.range = spot.range ∧ spot.offset + 2 ≤ later.offset ∧
      later.offset ≤ spot.range.finish := by
  cases resumes with
  | complete more ends goes =>
    have forth := add_two_le_reach placed ends
    rw [behind_eq_resume (by omega)] at goes
    have placed' := placed_of_resume goes (started_of_one placed ends)
    obtain ⟨_, short, rfl⟩ := of_resume_eq_ok goes
    exact ⟨placed', rfl, forth, short⟩
  | guarded more ends opens goes =>
    have enters := enter_of_opening placed ends opens
    have reached := reach_of_enter placed ends enters
    rw [behind_eq_resume (by dsimp only; omega)] at goes
    have placed' := placed_of_resume goes (started_of_enter placed ends enters)
    obtain ⟨_, short, rfl⟩ := of_resume_eq_ok goes
    exact ⟨placed', rfl, by dsimp only; omega, short⟩

/-- A guarded range is shorter than what is left of the range that it stands in. -/
theorem Opens.shorter (opens : Opens decoder spot inner) (placed : spot.Placed) :
    inner.Placed ∧ inner.offset = inner.range.base ∧
      inner.range.length < spot.range.finish - spot.offset := by
  cases opens with
  | guarded more ends opens =>
    have enters := enter_of_opening placed ends opens
    have placed' := placed_of_enter enters
    have reached := reach_of_guarded placed ends
    obtain ⟨forth, fits, _, _, _, _, rfl⟩ := of_enter_eq_ok enters
    exact ⟨placed', rfl, by dsimp only; omega⟩

/-- What a turn leads to lies in its range, where less is left. -/
theorem Leads.descends (leads : Leads decoder spot later) (placed : spot.Placed) :
    later.Placed ∧ later.range.finish - later.offset < spot.range.finish - spot.offset := by
  rcases leads with opens | resumes
  · obtain ⟨placed', first, shorter⟩ := opens.shorter placed
    refine ⟨placed', ?_⟩
    rw [CodeRange.finish, first]
    omega
  · obtain ⟨placed', same, forth, short⟩ := resumes.forth placed
    refine ⟨placed', ?_⟩
    rw [same]
    omega

/-- The turns that decoding can come to from a place on. -/
abbrev Arrives (decoder : Decoder) : Spot → Spot → Prop := Relation.ReflTransGen (Leads decoder)

theorem placed_of_arrives (placed : spot.Placed) (arrives : Arrives decoder spot later) :
    later.Placed := by
  induction arrives with
  | refl => exact placed
  | tail _ leads ih => exact (leads.descends ih).1

/-- Turns do not go on for ever. -/
theorem acc_leads (placed : spot.Placed) :
    Acc (fun later spot => Leads decoder spot later) spot := by
  -- The induction is on what is left of the range; a turn that this one leads to has less left.
  induction left : spot.range.finish - spot.offset using Nat.strongRecOn generalizing spot with
  | ind left ih =>
    subst left
    refine .intro spot fun later leads => ?_
    obtain ⟨placed', less⟩ := leads.descends placed
    exact ih _ less placed' rfl

/-- Only one thing can be said of what turns come to. -/
theorem eq_outcome_of_turn {go : Spot → RangeOutcome} (placed : spot.Placed)
    (turns : ∀ later, Arrives decoder spot later → go later = later.turn decoder go) :
    go spot = spot.outcome decoder := by
  have finite : Acc (fun later spot => Leads decoder spot later) spot := acc_leads placed
  induction finite with
  | intro spot _ ih =>
    rw [turns spot .refl, outcome_eq_turn placed]
    refine turn_congr fun later leads => ?_
    exact ih later leads (leads.descends placed).1 fun further arrives =>
      turns further (.head leads arrives)

end Spot

/-! ### Counting -/

/-- A line adds at most one instruction. -/
theorem Line.length_write_le (line : Line) (body : DecodedBody) :
    (line.write body).instructions.length ≤ body.instructions.length + 1 := by
  obtain ⟨offset, content⟩ := line
  rcases content with _ | ⟨opcode, operand⟩
  · exact Nat.le_succ _
  · cases operand <;>
      simp [write, DecodedBody.emit, DecodedBody.emitBranch, DecodedBody.settle]

/-- A turn adds at most one instruction. -/
theorem Spot.length_le_of_one {decoder : Decoder} {spot : Spot} {decoded : Decoded}
    {after : Decoding} {last : Session} (ends : spot.one decoder = (.ok (decoded, after), last)) :
    after.body.instructions.length ≤ spot.state.body.instructions.length + 1 := by
  have takes := Decoder.decodeOne_ensures decoder spot.range spot.offset spot.state spot.session
    decoded after last ends
  cases decoded with
  | complete =>
    obtain ⟨line, _, _, written⟩ := takes
    rw [written]
    exact line.length_write_le _
  | stopped =>
    obtain ⟨stop, _, _, stopped⟩ := takes
    rw [stopped]
    exact stop.line.length_write_le _
  | guarded size =>
    have same : after.body = spot.state.body := takes
    rw [same]
    exact Nat.le_succ _

namespace Course

variable {decoder : Decoder} {spot : Spot} {visited : List Spot} {outcome : RangeOutcome}

/-- Decoding takes one turn for every two bytes, and one more for a last single byte. -/
theorem two_mul_length_le (course : Course decoder spot visited outcome) (placed : spot.Placed) :
    2 * visited.length ≤ spot.range.finish - spot.offset + 1 := by
  induction course with
  | finish done => exact Nat.zero_le _
  | fails more | stops more | runsOut more | closed more =>
    rw [List.length_singleton]
    omega
  | next more ends resumes rest ih =>
    have forth := Spot.add_two_le_reach placed ends
    have turns := ih (Spot.placed_of_resume resumes (Spot.started_of_one placed ends))
    obtain ⟨_, short, rfl⟩ := Spot.of_resume_eq_ok resumes
    rw [List.length_cons]
    dsimp only at turns
    omega
  | innerFails more ends enters within ih | innerStops more ends enters within ih
  | innerRunsOut more ends enters within past ih =>
    have reached := Spot.reach_of_guarded placed ends
    have turns := ih (Spot.placed_of_enter enters)
    obtain ⟨_, fits, _, _, _, _, rfl⟩ := Spot.of_enter_eq_ok enters
    rw [CodeRange.finish] at turns
    rw [List.length_cons]
    dsimp only at turns
    omega
  | innerNext more ends enters within resumes rest ih ih' =>
    -- A last single byte may count both in the guarded range and behind it; the head of the range,
    -- of six bytes, makes up for that.
    have reached := Spot.reach_of_guarded placed ends
    have behind := Spot.reach_of_enter placed ends enters
    have turns := ih (Spot.placed_of_enter enters)
    have turns' := ih' (Spot.placed_of_resume resumes (Spot.started_of_enter placed ends enters))
    obtain ⟨_, short, rfl⟩ := Spot.of_resume_eq_ok resumes
    obtain ⟨_, fits, _, _, _, _, rfl⟩ := Spot.of_enter_eq_ok enters
    rw [CodeRange.finish] at turns
    rw [List.length_cons, List.length_append]
    dsimp only at turns turns' short
    omega

/-- Decoding adds at most one instruction for each turn. -/
theorem length_instructions_le (course : Course decoder spot visited outcome) {stopped : Bool}
    {after : Decoding} {last : Session} (ends : outcome = (.ok (stopped, after), last)) :
    after.body.instructions.length ≤ spot.state.body.instructions.length + visited.length := by
  induction course generalizing stopped after last with
  | finish done =>
    cases ends
    exact Nat.le_refl _
  | fails | runsOut | closed | innerFails | innerRunsOut => cases ends
  | stops more now =>
    cases ends
    exact Spot.length_le_of_one now
  | next more now resumes rest ih =>
    have one := Spot.length_le_of_one now
    have later := ih ends
    obtain ⟨_, _, rfl⟩ := Spot.of_resume_eq_ok resumes
    rw [List.length_cons]
    dsimp only at later
    omega
  | innerStops more now enters within ih =>
    cases ends
    have one := Spot.length_le_of_one now
    have through := ih rfl
    rw [Spot.body_of_enter enters] at through
    rw [List.length_cons]
    dsimp only [DecodedBody.skip] at through ⊢
    omega
  | innerNext more now enters within resumes rest ih ih' =>
    have one := Spot.length_le_of_one now
    have through := ih rfl
    have later := ih' ends
    rw [Spot.body_of_enter enters] at through
    obtain ⟨_, _, rfl⟩ := Spot.of_resume_eq_ok resumes
    rw [List.length_cons, List.length_append]
    dsimp only [DecodedBody.skip] at through later
    omega

end Course

/-- Decoding terminates. Its turns lead to no others for ever, though nothing in them asks for
progress, and decoding is the only thing that they can come to: the next turn in a range stands two
bytes behind at least, and a guarded range is shorter than the range that it stands in. So there are
no more turns, and no more instructions, than pairs of bytes, a last single byte counting as one. -/
theorem Decoder.decode_terminates (decoder : Decoder) (reader : Reader) (length : Nat)
    (session : Session) :
    let start := Spot.start reader length session
    Acc (fun later spot => Spot.Leads decoder spot later) start ∧
    (∀ spot, Spot.Arrives decoder start spot →
      spot.outcome decoder = spot.turn decoder (Spot.outcome decoder) ∧
      (∀ later, Spot.Resumes decoder spot later → later.range = spot.range ∧
        spot.offset + 2 ≤ later.offset ∧ later.offset ≤ spot.range.finish) ∧
      ∀ inner, Spot.Opens decoder spot inner → inner.offset = inner.range.base ∧
        inner.range.length < spot.range.length) ∧
    (∀ go, (∀ spot, Spot.Arrives decoder start spot → go spot = spot.turn decoder go) →
      go start = start.outcome decoder) ∧
    (∃ visited, Course decoder start visited (start.outcome decoder) ∧
      visited.length ≤ (length + 1) / 2) ∧
    ∀ body after last, (decoder.decode reader length).run.run session = (.ok (body, after), last) →
      body.instructions.length ≤ (length + 1) / 2 := by
  intro start
  have placed : start.Placed := Spot.placed_start reader length session
  obtain ⟨visited, course⟩ := Spot.exists_course decoder start
  have turns := course.two_mul_length_le placed
  rw [Spot.finish_start] at turns
  change 2 * visited.length ≤ length + 1 at turns
  refine ⟨Spot.acc_leads placed, fun spot arrives => ?_, fun go => Spot.eq_outcome_of_turn placed,
    ⟨visited, course, by omega⟩, fun body after last ends => ?_⟩
  · have placed := Spot.placed_of_arrives placed arrives
    refine ⟨Spot.outcome_eq_turn placed, fun later resumes => (resumes.forth placed).2, ?_⟩
    intro inner opens
    obtain ⟨_, first, shorter⟩ := opens.shorter placed
    refine ⟨first, ?_⟩
    have base : spot.range.base ≤ spot.offset := by
      rw [← placed.here]
      exact Nat.le_add_right _ _
    rw [CodeRange.finish] at shorter
    omega
  · obtain ⟨stopped, state, whole, rfl, rfl⟩ := exists_of_decode_eq_ok ends
    have count := course.length_instructions_le whole
    change state.body.instructions.length ≤ _
    change _ ≤ 0 + visited.length at count
    omega

namespace LastByte

def nothing : VirtualOpcode := ⟨7, .inlineNone, .cil .nop, ⟨0⟩⟩

/-- A decoder of one opcode without an operand. -/
def decoder : Decoder where
  catalog := { opcodes := [nothing] }
  resolver := { stream := { base := .memory [] } }
  token := ⟨0x06000001⟩

def session : Session := { host := { name := "Sample" } }

/-- Two instructions and half of the code of a third are as many instructions as there can be. -/
theorem decode_terminates_odd : ∃ body after last,
    (decoder.decode (.ofBytes [7, 0, 7, 0, 8, 0] {}) 5).run.run session =
        (.ok (body, after), last) ∧
      body.instructions.length = 3 ∧ body.instructions.length ≤ (5 + 1) / 2 := by
  have three : ((decoder.decode (.ofBytes [7, 0, 7, 0, 8, 0] {}) 5).run.run session).1.toOption.map
      (fun result => result.1.instructions.length) = some 3 := by decide +kernel
  obtain ⟨_, _, _, _, bounded⟩ :=
    decoder.decode_terminates (.ofBytes [7, 0, 7, 0, 8, 0] {}) 5 session
  cases ends : (decoder.decode (.ofBytes [7, 0, 7, 0, 8, 0] {}) 5).run.run session with
  | mk result last =>
    rw [ends] at three
    cases result with
    | error e => cases three
    | ok outcome =>
      obtain ⟨body, after⟩ := outcome
      exact ⟨body, after, last, rfl, Option.some.inj three, bounded body after last ends⟩

end LastByte

end CilRecovery
