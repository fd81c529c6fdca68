import CilRecovery.Proofs.Reports
import CilRecovery.Proofs.Twin

/-!
The steps of a recovery side by side: among others, in a session that others have used before, and
alone. Each step comes to the same in both, so a whole recovery does, unless the one alone runs out
of depth where results are shared.
-/
namespace CilRecovery

namespace Host

theorem Follows.bodies {before after : Host} (follows : before.Follows after) :
    after.bodies = before.bodies := by
  obtain ⟨methods, fields, known, same⟩ := follows
  rw [same]

theorem Follows.name {before after : Host} (follows : before.Follows after) :
    after.name = before.name := by
  obtain ⟨methods, fields, known, same⟩ := follows
  rw [same]

/-- Replacing bodies makes a module that follows. -/
theorem follows_replaced (host : Host) (replaced : Table Token MethodBody) :
    host.Follows { host with replaced } := ⟨[], [], by simp, by simp⟩

end Host

theorem Table.insertAll_append [DecidableEq Key] (table : Table Key Value)
    (front back : List (Key × Value)) :
    table.insertAll (front ++ back) = (table.insertAll front).insertAll back :=
  List.foldl_append

theorem Table.get?_insertAll_congr [DecidableEq Key] {first second : Table Key Value} {key : Key}
    (same : first.get? key = second.get? key) (entries : List (Key × Value)) :
    (first.insertAll entries).get? key = (second.insertAll entries).get? key := by
  induction entries generalizing first second with
  | nil => exact same
  | cons entry rest ih =>
    apply ih
    rw [Table.get?_insert, Table.get?_insert, same]

namespace Twin

open Recovering

/-- Two recoveries of one method side by side. Bodies are written in the same order into the two
tables. -/
structure Alike (twin : Twin) (first second : Table Token MethodBody)
    (among alone : Recovering) : Prop where
  beside : twin.Beside among.session alone.session
  method : among.method = alone.method
  progress : among.progress = alone.progress
  replaced : ∃ splices, among.session.host.replaced = first.insertAll splices ∧
    alone.session.host.replaced = second.insertAll splices

theorem Alike.report {twin : Twin} {first second : Table Token MethodBody}
    {among alone : Recovering} (alike : twin.Alike first second among alone) (token : Token)
    (result : Except Error Recovered) : among.report token result = alone.report token result := by
  cases result with
  | ok recovered => simp only [Recovering.report, alike.method, alike.progress]
  | error e => simp only [Recovering.report, alike.method, alike.progress]

/-- A step of a recovery that comes to the same among others and alone. -/
structure Steady (twin : Twin) (first second : Table Token MethodBody) (operation : RecoverM α) :
    Prop where
  keeps : ∀ state, twin.resolver.Keeps state.session (operation.run.run state).2.session
  agrees : ∀ among alone, twin.Alike first second among alone →
    (operation.run.run alone).2.session.Follows twin.last →
      twin.shared = true ∧
          (operation.run.run alone).1 = .error (.recursionLimit twin.resolver.maxDepth) ∨
        (operation.run.run among).1 = (operation.run.run alone).1 ∧
          twin.Alike first second (operation.run.run among).2 (operation.run.run alone).2

namespace Steady

variable {twin : Twin} {first second : Table Token MethodBody}

theorem pure (value : α) : twin.Steady first second (Pure.pure value : RecoverM α) where
  keeps state := refl_of twin.resolver.Keeps state.session
  agrees _ _ alike _ := .inr ⟨rfl, alike⟩

theorem throw (e : Error) : twin.Steady first second (MonadExcept.throw e : RecoverM α) where
  keeps state := refl_of twin.resolver.Keeps state.session
  agrees _ _ alike _ := .inr ⟨rfl, alike⟩

theorem lift (result : Except Error α) : twin.Steady first second (lift result) := by
  cases result with
  | ok value => exact pure value
  | error e => exact throw e

theorem lift_bind {result : Except Error α} {next : α → RecoverM β}
    (later : ∀ value, result = .ok value → twin.Steady first second (next value)) :
    twin.Steady first second (Recovering.lift result >>= next) := by
  cases result with
  | ok value => exact later value rfl
  | error e => exact throw e

theorem bind {operation : RecoverM α} {next : α → RecoverM β}
    (now : twin.Steady first second operation)
    (later : ∀ value, twin.Steady first second (next value)) :
    twin.Steady first second (operation >>= next) := by
  constructor
  · intro state
    have keeps := now.keeps state
    generalize ends : operation.run.run state = outcome at keeps
    obtain ⟨result, between⟩ := outcome
    cases result with
    | error e =>
      rw [run_bind_error ends]
      exact keeps
    | ok value =>
      rw [run_bind_ok ends]
      exact trans_of twin.resolver.Keeps keeps ((later value).keeps between)
  · intro among alone alike follows
    have agrees := now.agrees among alone alike
    have keeps := now.keeps alone
    generalize ends : operation.run.run among = outcome at agrees
    generalize endsAlone : operation.run.run alone = outcomeAlone at agrees keeps
    obtain ⟨result, among'⟩ := outcome
    obtain ⟨resultAlone, alone'⟩ := outcomeAlone
    cases resultAlone with
    | error e =>
      rw [run_bind_error endsAlone] at follows ⊢
      rcases agrees follows with ⟨shared, deep⟩ | ⟨same, alike⟩
      · cases deep
        exact .inl ⟨shared, rfl⟩
      · cases same
        rw [run_bind_error ends]
        exact .inr ⟨rfl, alike⟩
    | ok value =>
      rw [run_bind_ok endsAlone] at follows ⊢
      have since := ((later value).keeps alone' (keeps alike.beside.soundAlone).1).2
      rcases agrees (trans_of Session.Follows since follows) with ⟨_, fails⟩ | ⟨same, alike⟩
      · cases fails
      · cases same
        rw [run_bind_ok ends]
        exact (later value).agrees among' alone' alike follows

theorem get_bind {next : Recovering → RecoverM α}
    (same : ∀ among alone : Recovering, among.method = alone.method → next among = next alone)
    (later : ∀ state, twin.Steady first second (next state)) :
    twin.Steady first second (get >>= next) := by
  constructor
  · intro state
    rw [run_get_bind]
    exact (later state).keeps state
  · intro among alone alike follows
    rw [run_get_bind] at follows ⊢
    rw [run_get_bind, same among alone alike.method]
    exact (later alone).agrees among alone alike follows

theorem modifyMethod (change : VirtualMethod → VirtualMethod) :
    twin.Steady first second (modifyMethod change) where
  keeps state := refl_of twin.resolver.Keeps state.session
  agrees _ _ alike _ :=
    .inr ⟨rfl, ⟨alike.beside, congrArg change alike.method, alike.progress, alike.replaced⟩⟩

theorem reading (reader : Reader) (operation : ReadM α) :
    twin.Steady first second (reading reader operation) := by
  rw [Recovering.reading]
  generalize operation.run.run reader = outcome
  obtain ⟨result, reader⟩ := outcome
  exact bind (lift result) fun _ => pure _

theorem advance (stage : Stage) : twin.Steady first second (advance stage) := by
  have runs (state : Recovering) : (Recovering.advance stage).run.run state =
      match state.progress.advance stage with
      | .ok progress => (.ok (), { state with progress })
      | .error e => (.error e, state) := by
    rw [Recovering.advance, run_get_bind]
    cases state.progress.advance stage with
    | ok progress => rfl
    | error e => rfl
  constructor
  · intro state
    rw [runs]
    split <;> exact refl_of twin.resolver.Keeps state.session
  · intro among alone alike _
    rw [runs, runs, alike.progress]
    cases alone.progress.advance stage with
    | error e => exact .inr ⟨rfl, alike⟩
    | ok progress => exact .inr ⟨rfl, ⟨alike.beside, alike.method, rfl, alike.replaced⟩⟩

/-- What asks the resolver is steady if no query is answered otherwise. -/
theorem resolving (undisturbed : twin.Undisturbed) {operation : ResolveM α}
    (asks : Resolver.Asks twin.resolver operation) :
    twin.Steady first second (resolving operation) := by
  have replaced (session : Session) :
      (operation.run.run session).2.host.replaced = session.host.replaced := by
    obtain ⟨methods, fields, _, same⟩ := (asks.tame session).1
    rw [same]
  constructor
  · intro state
    rw [run_resolving]
    exact Resolver.Mirrors.keeps Resolver.keeps_resolveWithin asks state.session
  · intro among alone alike follows
    rw [run_resolving] at follows ⊢
    rw [run_resolving]
    have agrees := agrees_of_asks undisturbed asks alike.beside
    rcases agrees (by simp) follows with deep | ⟨same, beside⟩
    · exact .inl deep
    · refine .inr ⟨same, beside, alike.method, alike.progress, ?_⟩
      rw [replaced, replaced]
      exact alike.replaced

theorem splice (body : MethodBody) : twin.Steady first second (splice body) := by
  have known {state : Recovering} {token : Token} (same : state.method.token = token)
      (has : state.session.host.bodies.contains token = true) :
      (Recovering.splice body).run.run state =
        (.ok (), { state with session := { state.session with host := { state.session.host with
          replaced := state.session.host.replaced.insert token body } } }) := by
    rw [Recovering.splice, run_get_bind, Host.replaceBody, same, if_pos has]
    rfl
  have unknown {state : Recovering} {token : Token} (same : state.method.token = token)
      (has : ¬ state.session.host.bodies.contains token = true) :
      (Recovering.splice body).run.run state =
        (.error (.malformed
          ("Method " ++ token.render ++ " is not defined in " ++ state.session.host.name)),
          state) := by
    rw [Recovering.splice, run_get_bind, Host.replaceBody, same, if_neg has]
    rfl
  constructor
  · intro state
    by_cases has : state.session.host.bodies.contains state.method.token = true
    · rw [known rfl has]
      exact fun sound => sound.host (state.session.host.follows_replaced _)
    · rw [unknown rfl has]
      exact refl_of twin.resolver.Keeps state.session
  · intro among alone alike _
    obtain ⟨beside, method, progress, splices, replaced, replacedAlone⟩ := alike
    have token := congrArg VirtualMethod.token method
    have bodies := beside.host.bodies.trans beside.hostAlone.bodies.symm
    by_cases has : alone.session.host.bodies.contains alone.method.token = true
    · rw [known rfl has, known token (bodies ▸ has)]
      refine .inr ⟨rfl, ?_, method, progress, splices ++ [(alone.method.token, body)], ?_, ?_⟩
      · exact beside.hosts (among.session.host.follows_replaced _)
          (alone.session.host.follows_replaced _) beside.methods
      · rw [Table.insertAll_append, ← replaced]
        rfl
      · rw [Table.insertAll_append, ← replacedAlone]
        rfl
    · rw [unknown rfl has, unknown token (bodies ▸ has), beside.host.name, beside.hostAlone.name]
      exact .inr ⟨rfl, beside, method, progress, splices, replaced, replacedAlone⟩

variable {bench : Workbench} {resolver : Resolver}

theorem readHeader (undisturbed : twin.Undisturbed) (same : resolver = twin.resolver)
    (key : PositionKey) : twin.Steady first second (readHeader bench resolver key) := by
  refine bind (reading _ _) fun (header, reader) => ?_
  refine bind (resolving undisturbed (same ▸ asks_types resolver header)) fun types => ?_
  exact bind (modifyMethod _) fun _ => pure _

theorem decodeBody (undisturbed : twin.Undisturbed) (same : resolver = twin.resolver)
    (token : Token) (reader : Reader) :
    twin.Steady first second (decodeBody bench resolver token reader) := by
  refine bind (reading _ _) fun (length, reader) => ?_
  have asks := (bench.decoder resolver token).asks_decode reader length.toNat
  refine bind (resolving undisturbed (same ▸ asks)) fun (decoded, _) => ?_
  refine bind (advance _) fun _ => bind (lift _) fun linked => ?_
  exact bind (advance _) fun _ => pure linked

theorem finishFull (undisturbed : twin.Undisturbed) (same : resolver = twin.resolver)
    (types : HeaderTypes) (records : List HandlerRecord) (decoded : DecodedBody) :
    twin.Steady first second (finishFull bench resolver types records decoded) := by
  have asks := decoded.asks_fixHandlers resolver records
  refine bind (resolving undisturbed (same ▸ asks)) fun handlers => ?_
  refine bind (advance _) fun _ => bind (splice _) fun _ => ?_
  exact bind (advance _) fun _ => pure _

theorem finishDegraded (types : HeaderTypes) (stop : DecodeStop) (decoded : DecodedBody) :
    twin.Steady first second (finishDegraded bench types stop decoded) := by
  refine bind (modifyMethod _) fun _ => ?_
  have last : twin.Steady first second (do
      Recovering.advance .partiallyRecovered
      return {
        instructions := decoded.instructions
        failure := stop.error?.map Error.kind
        message := some stop.message
        isSpliced := !bench.settings.output.onlyRecovered : Recovered }) :=
    bind (advance _) fun _ => pure _
  dsimp only
  split
  · exact bind (splice _) fun _ => last
  · exact last

/-- The recovery of a method from its record is steady. -/
theorem recoverRecord (undisturbed : twin.Undisturbed) {key : PositionKey}
    (same : bench.resolver key.seed = twin.resolver) :
    twin.Steady first second (recoverRecord bench key) := by
  refine get_bind (fun among alone method => by rw [method]) fun state => ?_
  refine bind (readHeader undisturbed same key) fun (types, reader) => ?_
  refine bind (reading _ _) fun (records, reader) => bind (advance _) fun _ => ?_
  refine bind (decodeBody undisturbed same _ _) fun decoded => ?_
  split
  · exact finishDegraded types _ decoded
  · exact finishFull undisturbed same types records decoded

end Steady

end Twin

end CilRecovery
