import CilRecovery.Proofs.Course

/-!
What decoding depends on. Decoding that succeeds never goes back, and it sees nothing of the stream
behind the place where it ends.
-/
namespace CilRecovery

namespace Decoder

/-- The key that a guarded range is decrypted with. -/
def rangeKey (decoder : Decoder) (ordinal : Nat) : Except Error Cipher.Chain.Key :=
  match decoder.passwords with
  | none =>
    .error (.crypto ("Method " ++ decoder.token.render ++
      " has a guarded range but the chain cipher is disabled"))
  | some passwords =>
    match passwords.get? decoder.token ordinal with
    | none =>
      .error (.crypto ("No password for guarded range " ++ toString ordinal ++ " of method " ++
        decoder.token.render))
    | some password => .ok (.forRange password decoder.token ordinal)

/-- A guarded range is opened with its key and its bytes. -/
theorem openRange_run_eq (decoder : Decoder) (size : Nat) (state : Decoding) (session : Session) :
    ((decoder.openRange size).run state).run.run session =
      match decoder.rangeKey state.nextRange, (Reader.bytes size).run.run state.reader with
      | .error e, _ => (.error e, session)
      | .ok _, (.error e, _) => (.error e, session)
      | .ok key, (.ok cipher, reader) =>
        (.ok (key.decrypt cipher, ⟨reader, state.body, state.nextRange + 1⟩), session) := by
  rw [rangeKey]
  change ((match decoder.passwords with
    | none => _
    | some passwords => _ : DecodeM Bytes).run _).run.run session = _
  cases decoder.passwords with
  | none => rfl
  | some passwords =>
    dsimp only
    cases passwords.get? decoder.token state.nextRange with
    | none => rfl
    | some password =>
      dsimp only
      let counted : Decoding := ⟨state.reader, state.body, state.nextRange + 1⟩
      rw [run_bind_eq]
      cases ends : (Reader.bytes size).run.run counted.reader with
      | mk result reader =>
        cases result with
        | error e =>
          rw [reading_eq_throw ends]
          change _ = match (Reader.bytes size).run.run counted.reader with | _ => _
          rw [ends]
          rfl
        | ok cipher =>
          rw [reading_run ends]
          rfl

end Decoder

namespace Spot

variable {decoder : Decoder} {spot : Spot} {bound : Nat}

/-- The place in another stream. -/
def swap (spot : Spot) (reader : Reader) : Spot :=
  { spot with state := { spot.state with reader } }

/-- What is done about an instruction depends on nothing behind it. -/
theorem one_mirrored {decoded : Decoded} {after : Decoding} {last : Session} {reader : Reader}
    (ends : spot.one decoder = (.ok (decoded, after), last))
    (agrees : Reader.Agrees bound spot.state.reader reader)
    (inside : after.reader.position ≤ bound) :
    ∃ reader', (spot.swap reader).one decoder =
        (.ok (decoded, { after with reader := reader' }), last) ∧
      Reader.Agrees bound after.reader reader' := by
  rw [one_eq] at ends
  cases read : (Reader.item decoder.catalog).run.run spot.state.reader with
  | mk result between =>
    rw [read] at ends
    cases result with
    | error e => cases ends
    | ok item =>
      obtain ⟨kept, _, same⟩ := (Decoder.blind_act decoder spot.range spot.offset item).of_ok ends
      have kept : after.reader = between := kept
      obtain ⟨reader', read', agrees'⟩ := (Reader.local_item decoder.catalog).mirrored bound
        spot.state.reader reader item between agrees read (kept ▸ inside)
      have read' : (Reader.item decoder.catalog).run.run (spot.swap reader).state.reader =
          (.ok item, reader') := read'
      refine ⟨reader', ?_, kept ▸ agrees'⟩
      rw [one_eq, read']
      exact same reader' agrees'.position

theorem resume_swap {later : Spot} {after : Decoding} {session : Session} (reader : Reader)
    {reader' : Reader} (resumes : spot.resume after session = .ok later)
    (same : reader'.position = after.reader.position) :
    (spot.swap reader).resume { after with reader := reader' } session =
      .ok (later.swap reader') := by
  have reached : (spot.swap reader).reach reader' = spot.reach after.reader := by
    rw [reach, reach, same]
    rfl
  rw [resume] at resumes ⊢
  dsimp only at resumes ⊢
  rw [reached]
  split at resumes
  · split at resumes
    · rename_i short advances
      cases resumes
      rw [if_pos short]
      exact if_pos advances
    · cases resumes
  · cases resumes

/-- What a guarded range holds depends on nothing behind it. -/
theorem enter_mirrored {inner : Spot} {size : Nat} {after : Decoding} {outer reader' : Reader}
    {session last : Session} (reader : Reader)
    (enters : spot.enter decoder size after session = (.ok (inner, outer), last))
    (agrees : Reader.Agrees bound after.reader reader') (inside : outer.position ≤ bound) :
    ∃ outer', (spot.swap reader).enter decoder size { after with reader := reader' } session =
        (.ok (inner, outer'), last) ∧ Reader.Agrees bound outer outer' := by
  have reached : (spot.swap reader).reach reader' = spot.reach after.reader := by
    rw [reach, reach, agrees.position]
    rfl
  rw [enter] at enters ⊢
  dsimp only at enters ⊢
  rw [reached, Decoder.openRange_run_eq]
  rw [Decoder.openRange_run_eq] at enters
  split at enters
  · split at enters
    · rename_i short fits
      rw [if_pos short]
      cases found : decoder.rangeKey after.nextRange with
      | error e =>
        rw [found] at enters
        cases enters
      | ok key =>
        rw [found] at enters
        cases read : (Reader.bytes size).run.run after.reader with
        | mk result between =>
          rw [read] at enters
          cases result with
          | error e => cases enters
          | ok cipher =>
            cases enters
            obtain ⟨outer', read', agrees'⟩ := (Reader.spans_bytes size).isLocal.mirrored bound
              after.reader reader' cipher between agrees read inside
            refine ⟨outer', (if_pos fits).trans ?_, agrees'⟩
            dsimp only
            rw [read']
            dsimp only
            rw [agrees'.profiles]
            rfl
    · cases enters
  · cases enters

end Spot

namespace Course

variable {decoder : Decoder} {spot : Spot} {visited : List Spot} {outcome : RangeOutcome}

/-- Decoding never goes back. -/
theorem forth (course : Course decoder spot visited outcome) {result : Bool × Decoding}
    {last : Session} (ends : outcome = (.ok result, last)) :
    spot.state.reader.position ≤ result.2.reader.position := by
  induction course generalizing result last with
  | finish done =>
    cases ends
    exact Nat.le_refl _
  | fails inside one | runsOut inside one past | closed inside one enters
  | innerFails inside one enters within ih | innerRunsOut inside one enters within past ih =>
    cases ends
  | stops inside one =>
    cases ends
    obtain ⟨head, item, taken⟩ := Spot.exists_taken one
    rw [taken.passed.position]
    exact Nat.le_add_right _ _
  | next inside one resumes rest ih =>
    obtain ⟨head, item, taken⟩ := Spot.exists_taken one
    have later := ih ends
    obtain ⟨_, _, rfl⟩ := Spot.of_resume_eq_ok resumes
    have passed := taken.passed.position
    dsimp only at later
    omega
  | innerStops inside one enters within ih =>
    cases ends
    obtain ⟨head, item, taken⟩ := Spot.exists_taken one
    have passed := taken.passed.position
    have passed' := (Spot.passed_of_enter enters).1.position
    dsimp only
    omega
  | innerNext inside one enters within resumes rest ih ih' =>
    obtain ⟨head, item, taken⟩ := Spot.exists_taken one
    have passed := taken.passed.position
    have passed' := (Spot.passed_of_enter enters).1.position
    have later := ih' ends
    obtain ⟨_, _, rfl⟩ := Spot.of_resume_eq_ok resumes
    dsimp only at later
    omega

/-- Decoding that succeeds depends on nothing behind the place where it ends. -/
theorem mirrored (course : Course decoder spot visited outcome) {stopped : Bool} {after : Decoding}
    {last : Session} (ends : outcome = (.ok (stopped, after), last)) {bound : Nat} {reader : Reader}
    (agrees : Reader.Agrees bound spot.state.reader reader)
    (short : after.reader.position ≤ bound) :
    ∃ reader', (spot.swap reader).outcome decoder =
        (.ok (stopped, { after with reader := reader' }), last) ∧
      Reader.Agrees bound after.reader reader' := by
  -- No step ends behind the whole, so each sees the same of both streams; the code in a guarded
  -- range is the same on both sides once its bytes are.
  induction course generalizing stopped after last reader with
  | @finish spot done =>
    cases ends
    have done : (spot.swap reader).range.finish ≤ (spot.swap reader).offset := done
    exact ⟨reader, Spot.outcome_of_finish decoder done, agrees⟩
  | fails inside one | runsOut inside one past | closed inside one enters
  | innerFails inside one enters within ih | innerRunsOut inside one enters within past ih =>
    cases ends
  | @stops spot _ _ inside one =>
    cases ends
    have inside : (spot.swap reader).offset < (spot.swap reader).range.finish := inside
    obtain ⟨reader', one', agrees'⟩ := Spot.one_mirrored one agrees short
    refine ⟨reader', ?_, agrees'⟩
    rw [Spot.outcome_eq decoder inside, one']
  | @next spot later between _ _ _ inside one resumes rest ih =>
    have inside : (spot.swap reader).offset < (spot.swap reader).range.finish := inside
    have same : later.state.reader = between.reader := by
      obtain ⟨_, _, rfl⟩ := Spot.of_resume_eq_ok resumes
      rfl
    have further := Nat.le_trans (rest.forth ends) short
    rw [same] at further
    obtain ⟨between', one', agrees'⟩ := Spot.one_mirrored one agrees further
    obtain ⟨reader', rest', agrees''⟩ := ih ends (same ▸ agrees') short
    refine ⟨reader', ?_, agrees''⟩
    rw [Spot.outcome_eq decoder inside, one']
    dsimp only
    rw [Spot.onward, Spot.resume_swap reader resumes agrees'.position]
    exact rest'
  | @innerStops spot inner size between ended outer _ _ _ _ inside one enters within ih =>
    cases ends
    have inside : (spot.swap reader).offset < (spot.swap reader).range.finish := inside
    have passed := (Spot.passed_of_enter enters).1.position
    obtain ⟨between', one', agrees'⟩ := Spot.one_mirrored one agrees (by dsimp only at short; omega)
    obtain ⟨outer', enters', agrees''⟩ := Spot.enter_mirrored reader enters agrees' short
    refine ⟨outer', ?_, agrees''⟩
    rw [Spot.outcome_eq decoder inside, one']
    dsimp only
    rw [Spot.through, enters']
    dsimp only
    rw [within.outcome_eq]
  | @innerNext spot inner later size between ended outer _ _ final _ _ _ inside one enters within
      resumes rest ih ih' =>
    have inside : (spot.swap reader).offset < (spot.swap reader).range.finish := inside
    have same : later.state.reader = outer := by
      obtain ⟨_, _, rfl⟩ := Spot.of_resume_eq_ok resumes
      rfl
    have further := Nat.le_trans (rest.forth ends) short
    rw [same] at further
    have passed := (Spot.passed_of_enter enters).1.position
    obtain ⟨between', one', agrees'⟩ := Spot.one_mirrored one agrees (by omega)
    obtain ⟨outer', enters', agrees''⟩ := Spot.enter_mirrored reader enters agrees' further
    obtain ⟨reader', rest', last_⟩ := ih' ends (same ▸ agrees'') short
    refine ⟨reader', ?_, last_⟩
    have resumes' := Spot.resume_swap reader resumes agrees''.position
    rw [Spot.outcome_eq decoder inside, one']
    dsimp only
    rw [Spot.through, enters']
    dsimp only
    rw [within.outcome_eq]
    dsimp only
    rw [Spot.onward, resumes']
    exact rest'

end Course

/-- Decoding that succeeds gives the same for a stream that differs only before its start and behind
its end. -/
theorem Decoder.decode_of_agrees {decoder : Decoder} {reader after other : Reader}
    {length bound : Nat} {body : DecodedBody} {session last : Session}
    (ends : (decoder.decode reader length).run.run session = (.ok (body, after), last))
    (agrees : Reader.Agrees bound reader other) (short : after.position ≤ bound) :
    ∃ after', (decoder.decode other length).run.run session = (.ok (body, after'), last) ∧
      after'.position = after.position := by
  obtain ⟨stopped, state, whole, rfl, rfl⟩ := exists_of_decode_eq_ok ends
  obtain ⟨visited, course⟩ := Spot.exists_course decoder (.start reader length session)
  have agrees' : Reader.Agrees bound (Spot.start reader length session).state.reader
      { other with active := .instruction } := by
    obtain ⟨text, text', seen, seen', same⟩ := agrees.seen
    exact ⟨agrees.position, agrees.profiles, rfl, text, text', ⟨seen.inOrder, seen.is⟩,
      ⟨seen'.inOrder, seen'.is⟩, same⟩
  obtain ⟨after', same, agrees''⟩ := course.mirrored whole agrees' short
  have start : Spot.start other length session =
      (Spot.start reader length session).swap { other with active := .instruction } := by
    rw [Spot.start, agrees.position]
    rfl
  refine ⟨after', ?_, agrees''.position⟩
  rw [decode_run_eq, start, same]

/-- Decoding from memory that succeeds gives the same where memory differs only behind its end. -/
theorem Decoder.decode_mirrored {decoder : Decoder} {reader after other : Reader}
    {length bound : Nat} {body : DecodedBody} {session last : Session}
    (ends : (decoder.decode reader length).run.run session = (.ok (body, after), last))
    (twin : Reader.Twin bound reader other) (short : after.position ≤ bound) :
    ∃ after', (decoder.decode other length).run.run session = (.ok (body, after'), last) ∧
      after'.position = after.position :=
  decode_of_agrees ends twin.agrees short

end CilRecovery
