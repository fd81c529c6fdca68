import CilRecovery.Recovery.Run
import CilRecovery.Proofs.Decoding
import CilRecovery.Proofs.Handlers

/-!
How the recovery of a method ends. It fails with an ordinary error and leaves the bodies of the
module alone, or it writes back a whole body, or it stops at a placeholder and writes back what it
has, if that is wanted.
-/
namespace CilRecovery

/-- The exception handlers of a method as they stand in the method stream. -/
def Workbench.handlerRecords (bench : Workbench) (key : PositionKey) :
    Except Error (List HandlerRecord) :=
  Reader.result (do
    let _ ← (do
      Reader.seek key.offset.toNat
      MethodHeader.read bench.layout.header)
    HandlerRecord.readTable) (bench.reader key)

namespace Recovering

theorem run_resolving (operation : ResolveM α) (state : Recovering) :
    (resolving operation).run.run state =
      ((operation.run.run state.session).1,
        { state with session := (operation.run.run state.session).2 }) := by
  rw [resolving, run_get_bind]
  generalize operation.run.run state.session = outcome
  obtain ⟨result, session⟩ := outcome
  cases result with
  | ok value => rfl
  | error e => rfl

/-- A recovery under way, with nothing written back. -/
structure At (start : Recovering) (stage : Stage) (status : RecoveryStatus) (state : Recovering) :
    Prop where
  grows : start.session.Grows state.session
  stage : state.progress.stage = stage
  status : state.method.status = status
  token : state.method.token = start.method.token

/-- A recovery that failed before its last stage, with nothing written back. -/
structure Failed (start : Recovering) (e : Error) (state : Recovering) : Prop where
  ordinary : e.Ordinary
  grows : start.session.Grows state.session
  early : state.progress.stage.isFinal = false

/-- A recovery after which some bodies are written back. -/
structure Stands (bodies : Table Token MethodBody) (stage : Stage) (status : RecoveryStatus)
    (state : Recovering) : Prop where
  replaced : state.session.host.replaced = bodies
  stage : state.progress.stage = stage
  status : state.method.status = status

section Steps

variable {start state : Recovering} {stage : Stage} {status : RecoveryStatus}

theorem At.failed (here : At start stage status state) (early : stage.isFinal = false) {e : Error}
    (ordinary : e.Ordinary) : Failed start e state :=
  ⟨ordinary, here.grows, here.stage ▸ early⟩

theorem At.stands (here : At start stage status state) :
    Stands start.session.host.replaced stage status state := by
  obtain ⟨methods, fields, _, same⟩ := here.grows
  refine ⟨?_, here.stage, here.status⟩
  rw [same]

theorem lift_reaches {result : Except Error α} {done : α → Recovering → Prop}
    (here : At start stage status state) (early : stage.isFinal = false)
    (fails : OnlyFails Error.Ordinary result)
    (holds : ∀ value, result = .ok value → done value state) :
    Reaches (lift result) state done (Failed start) := by
  cases result with
  | ok value => exact .pure (holds value rfl)
  | error e => exact .throw (here.failed early (fails e rfl))

theorem reading_reaches {operation : ReadM α} {reader : Reader}
    {done : α × Reader → Recovering → Prop} (here : At start stage status state)
    (early : stage.isFinal = false) (tame : Reader.Tame operation)
    (holds : ∀ value after, operation.run.run reader = (.ok value, after) →
      done (value, after) state) :
    Reaches (reading reader operation) state done (Failed start) := by
  have fails := (tame reader).2
  rw [reading]
  generalize operation.run.run reader = outcome at fails holds
  obtain ⟨result, after⟩ := outcome
  exact .bind (lift_reaches here early fails fun value same =>
    .pure (holds value after (by rw [same])))

theorem resolving_reaches {operation : ResolveM α} {found : α → Prop}
    {done : α → Recovering → Prop} (here : At start stage status state)
    (early : stage.isFinal = false)
    (reaches : Reaches operation state.session
      (fun value after => state.session.Grows after ∧ found value)
      (fun e after => e.Ordinary ∧ state.session.Grows after))
    (holds : ∀ value after, found value → At start stage status after → done value after) :
    Reaches (resolving operation) state done (Failed start) := by
  have ends := reaches.ends
  refine .get_bind ?_
  generalize operation.run.run state.session = outcome at ends
  obtain ⟨result, session⟩ := outcome
  refine .set_bind ?_
  cases result with
  | error e =>
    exact .throw ⟨ends.1, trans_of Session.Grows here.grows ends.2, here.stage ▸ early⟩
  | ok value =>
    refine .pure (holds value { state with session } ends.2 ⟨?_, here.stage, here.status, here.token⟩)
    exact trans_of Session.Grows here.grows ends.1

/-- A stage that may follow is entered. -/
theorem advance_reaches {next : Stage} {done : Unit → Recovering → Prop}
    {failed : Error → Recovering → Prop} (follows : state.progress.stage.mayPrecede next)
    (holds : ∀ progress, progress.stage = next → done () { state with progress }) :
    Reaches (advance next) state done failed := by
  refine .get_bind ?_
  rw [Progress.advance, if_pos follows]
  exact ⟨holds (state.progress.enter next) rfl⟩

/-- A body is written back under the token of the method, or the token is not known. -/
theorem splice_reaches {body : MethodBody} {done : Unit → Recovering → Prop}
    (here : At start stage status state) (early : stage.isFinal = false)
    (holds : ∀ after,
      Stands (start.session.host.replaced.insert start.method.token body) stage status after →
        done () after) :
    Reaches (splice body) state done (Failed start) := by
  have fails : OnlyFails Error.Ordinary
      (state.session.host.replaceBody state.method.token body) := by
    rw [Host.replaceBody]
    split
    · exact .ok _
    · exact .error (Error.IsMalformed.ordinary ⟨_, rfl⟩)
  refine .get_bind (.bind (lift_reaches here early fails fun host replaced => ⟨?_⟩))
  refine holds { state with session := { state.session with host } } ⟨?_, here.stage, here.status⟩
  rw [Host.replaceBody] at replaced
  split at replaced
  · cases replaced
    rw [← here.stands.replaced, ← here.token]
  · cases replaced

end Steps

/-- How the recovery of a method can end. -/
inductive Ends (bench : Workbench) (start : Recovering) :
    Except Error Recovered → Recovering → Prop where
  | failed {e : Error} {state : Recovering} (fails : Failed start e state) :
    Ends bench start (.error e) state
  /-- All of the code was decoded, linked and written back with its handlers. -/
  | full {state : Recovering} {key : PositionKey} {records : List HandlerRecord} {length : Nat}
    {decoded : DecodedBody} {body : MethodBody}
    (keyed : PositionKey.decode bench.mask start.method.key = .ok key)
    (tabled : bench.handlerRecords key = .ok records)
    (linked : decoded.Linked bench.catalog length) (whole : decoded.stop = none)
    (handlers : List.Forall₂ (HandlerRecord.Links decoded) records body.handlers)
    (instructions : body.instructions = decoded.instructions)
    (stands : Stands (start.session.host.replaced.insert start.method.token body) .spliced .full
      state) :
    Ends bench start (.ok { instructions := decoded.instructions, isSpliced := true }) state
  /-- The code before a placeholder was decoded and linked, and written back if that is wanted. -/
  | degraded {state : Recovering} {length : Nat} {decoded : DecodedBody} {stop : DecodeStop}
    {body : MethodBody}
    (linked : decoded.Linked bench.catalog length) (stopped : decoded.stop = some stop)
    (instructions : body.instructions = decoded.instructions)
    (stands : Stands
      (if bench.settings.output.onlyRecovered then start.session.host.replaced
        else start.session.host.replaced.insert start.method.token body)
      .partiallyRecovered .degraded state) :
    Ends bench start (.ok {
      instructions := decoded.instructions
      failure := stop.error?.map Error.kind
      message := some stop.message
      isSpliced := !bench.settings.output.onlyRecovered }) state

/-- An operation ends the recovery of a method in one of these ways. -/
abbrev Finishes (bench : Workbench) (start : Recovering) (operation : RecoverM Recovered)
    (state : Recovering) : Prop :=
  Reaches operation state (fun recovered after => Ends bench start (.ok recovered) after)
    (Failed start)

section Ends

variable {bench : Workbench} {start state : Recovering} {decoded : DecodedBody} {length : Nat}

theorem finishFull_reaches {key : PositionKey} {records : List HandlerRecord}
    (resolver : Resolver) (types : HeaderTypes)
    (keyed : PositionKey.decode bench.mask start.method.key = .ok key)
    (tabled : bench.handlerRecords key = .ok records)
    (here : At start .branchFixup .full state) (linked : decoded.Linked bench.catalog length)
    (whole : decoded.stop = none) :
    Finishes bench start (finishFull bench resolver types records decoded) state := by
  refine .bind (resolving_reaches here rfl
    (decoded.fixHandlers_reaches resolver records state.session) fun handlers after links here => ?_)
  refine .bind (advance_reaches (here.stage ▸ rfl) fun progress entered => ?_)
  have here : At start .handlerFixup .full { after with progress } :=
    ⟨here.grows, entered, here.status, here.token⟩
  refine .bind (splice_reaches here rfl fun after stands => ?_)
  refine .bind (advance_reaches (stands.stage ▸ rfl) fun progress entered => .pure ?_)
  exact .full keyed tabled linked whole links rfl ⟨stands.replaced, entered, stands.status⟩

theorem finishDegraded_reaches {stop : DecodeStop} (types : HeaderTypes)
    (here : At start .branchFixup .full state) (linked : decoded.Linked bench.catalog length)
    (stopped : decoded.stop = some stop) :
    Finishes bench start (finishDegraded bench types stop decoded) state := by
  have marked : At start .branchFixup .degraded
      { state with method := { state.method with status := .degraded } } :=
    ⟨here.grows, here.stage, rfl, here.token⟩
  have last {body : MethodBody} {after : Recovering}
      (same : body.instructions = decoded.instructions)
      (stands : Stands (if bench.settings.output.onlyRecovered then start.session.host.replaced
        else start.session.host.replaced.insert start.method.token body) .branchFixup .degraded
        after) :
      Finishes bench start (do
        advance .partiallyRecovered
        return {
          instructions := decoded.instructions
          failure := stop.error?.map Error.kind
          message := some stop.message
          isSpliced := !bench.settings.output.onlyRecovered }) after := by
    refine .bind (advance_reaches (stands.stage ▸ rfl) fun progress entered => .pure ?_)
    exact .degraded linked stopped same ⟨stands.replaced, entered, stands.status⟩
  rw [finishDegraded]
  refine .modify_bind (?_ : Finishes bench start _
    { state with method := { state.method with status := .degraded } })
  by_cases only : bench.settings.output.onlyRecovered = true
  · simp only [only, Bool.not_true, Bool.false_eq_true, if_false] at last ⊢
    exact @last { instructions := decoded.instructions } _ rfl marked.stands
  · simp only [only, Bool.not_false, if_true, Bool.false_eq_true, if_false] at last ⊢
    exact .bind (splice_reaches marked rfl fun after stands => last rfl stands)

theorem positionKey_onlyFails (mask : UInt32) (text : String) :
    OnlyFails Error.Ordinary (PositionKey.decode mask text) := by
  rw [PositionKey.decode]
  split
  · exact .error (by constructor <;> simp [Error.kind])
  · split
    · exact .ok _
    · exact .error (by constructor <;> simp [Error.kind])

theorem asks_types (resolver : Resolver) (header : MethodHeader) :
    Resolver.Asks resolver (header.types resolver) := by
  have required (what : String) (position : Int32) :
      Resolver.Asks resolver (MethodHeader.requireType resolver what position) := by
    refine .bind (resolver.asks_resolveType position) fun found => ?_
    cases found with
    | some sig => exact .pure sig
    | none => exact .throw (by constructor <;> simp [Error.kind])
  have param (param : HeaderParam) :
      Resolver.Asks resolver (MethodHeader.paramType resolver param) :=
    .map (required _ _) _
  exact .bind (required _ _) fun _ => .bind (required _ _) fun _ =>
    .bind (.mapM fun position _ => required "local" position) fun _ =>
      .map (.mapM fun one _ => param one) _

theorem decodeBody_reaches (resolver : Resolver) (token : Token) (reader : Reader)
    (here : At start .headerRead .full state) {done : DecodedBody → Recovering → Prop}
    (holds : ∀ decoded length after, decoded.Linked bench.catalog length →
      At start .branchFixup .full after → done decoded after) :
    Reaches (decodeBody bench resolver token reader) state done (Failed start) := by
  refine .bind (reading_reaches here rfl Reader.Composed.u32.tame fun length reader _ => ?_)
  have asks := (bench.decoder resolver token).asks_decode reader length.toNat
  refine .bind (resolving_reaches here rfl
    (.of_obeys (asks.tame state.session)
      (fun _ _ ends grows => ⟨grows, (bench.decoder resolver token).decode_ensures ends⟩)
      fun _ _ ordinary grows => ⟨ordinary, grows⟩)
    fun (decoded, _) after ⟨written, stopped, settled, extended⟩ here => ?_)
  refine .bind (advance_reaches (here.stage ▸ rfl) fun progress entered => ?_)
  have here : At start .instructionDecode .full { after with progress } :=
    ⟨here.grows, entered, here.status, here.token⟩
  have fails : OnlyFails Error.Ordinary decoded.fixBranches := fun e failed =>
    Error.IsMalformed.ordinary (decoded.fixBranches_onlyFails e failed)
  refine .bind (lift_reaches here rfl fails fun linked links => ?_)
  refine .bind (advance_reaches (here.stage ▸ rfl) fun progress entered => .pure ?_)
  refine holds linked length.toNat _ ?_ ⟨here.grows, entered, here.status, here.token⟩
  have settled : decoded = written.settle := settled
  exact extended.linked (settled ▸ links)

theorem readHeader_reaches (resolver : Resolver) (key : PositionKey)
    (here : At start .start .full state) {done : HeaderTypes × Reader → Recovering → Prop}
    (holds : ∀ types header reader after,
      (do
        Reader.seek key.offset.toNat
        MethodHeader.read bench.layout.header : ReadM MethodHeader).run.run (bench.reader key) =
          (.ok header, reader) →
        At start .start .full after → done (types, reader) after) :
    Reaches (readHeader bench resolver key) state done (Failed start) := by
  refine .bind (reading_reaches here rfl (.bind (Reader.tame_seek _) fun _ =>
    (MethodHeader.composed_read _).tame) fun header reader read => ?_)
  refine .bind (resolving_reaches here rfl (.of_obeys ((asks_types resolver header).tame state.session)
    (fun _ _ _ grows => ⟨grows, trivial⟩) fun _ _ ordinary grows => ⟨ordinary, grows⟩)
    fun types after _ here => ?_)
  refine .modify_bind (.pure (holds types header reader _ read ?_))
  exact ⟨here.grows, here.stage, here.status, here.token⟩

/-- The records behind a header are those that the method stream has for the key. -/
theorem handlerRecords_eq {key : PositionKey} {header : MethodHeader} {reader after : Reader}
    {records : List HandlerRecord}
    (headed : (do
      Reader.seek key.offset.toNat
      MethodHeader.read bench.layout.header : ReadM MethodHeader).run.run (bench.reader key) =
        (.ok header, reader))
    (tabled : HandlerRecord.readTable.run.run reader = (.ok records, after)) :
    bench.handlerRecords key = .ok records := by
  rw [Workbench.handlerRecords, Reader.result, run_bind_ok headed, tabled]

theorem recoverRecord_reaches {key : PositionKey} (fresh : At start .start .full start)
    (keyed : PositionKey.decode bench.mask start.method.key = .ok key) :
    Finishes bench start (recoverRecord bench key) start := by
  refine .get_bind (.bind (readHeader_reaches _ key fresh
    fun types header reader after headed here => ?_))
  refine .bind (reading_reaches here rfl HandlerRecord.composed_readTable.tame
    fun records reader tabled => ?_)
  refine .bind (advance_reaches (here.stage ▸ rfl) fun progress entered => ?_)
  have here : At start .headerRead .full { after with progress } :=
    ⟨here.grows, entered, here.status, here.token⟩
  refine .bind (decodeBody_reaches _ _ reader here fun decoded length after linked here => ?_)
  cases stopped : decoded.stop with
  | some stop => exact finishDegraded_reaches types here linked stopped
  | none =>
    exact finishFull_reaches _ types keyed (handlerRecords_eq headed tabled) here linked stopped

/-- The recovery of a method ends in one of these ways. -/
theorem recover_ends (fresh : At start .start .full start) :
    Ends bench start ((recover bench).run.run start).1 ((recover bench).run.run start).2 := by
  have reaches : Finishes bench start (recover bench) start :=
    .get_bind (.bind (lift_reaches fresh rfl (positionKey_onlyFails _ _) fun key keyed =>
      recoverRecord_reaches fresh keyed))
  have ends := reaches.ends
  generalize (recover bench).run.run start = outcome at ends
  obtain ⟨result, state⟩ := outcome
  cases result with
  | error e => exact .failed ends
  | ok recovered => exact ends

end Ends

end Recovering

end CilRecovery
