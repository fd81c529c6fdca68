import CilRecovery.Proofs.Reports

/-!
What a failure can do to a run. A part of the preparation that fails ends the run with a fatal error
before anything is done to the module. A method that fails is charged with its error, and the run
goes on.
-/
namespace CilRecovery

/-- An error that ends a whole run. -/
def Error.IsBootstrap (e : Error) : Prop := ∃ reason, e = bootstrap reason

theorem Error.Ordinary.isFatal_eq_false {e : Error} (ordinary : e.Ordinary) :
    e.isFatal = false := by
  cases e with
  | bootstrap reason => exact absurd rfl ordinary.1
  | _ => rfl

/-! ### Preparation -/

namespace Catalog

theorem toOption_collect (noticed other : Nat) (results : List (Except Error α)) :
    (collect noticed results).toOption = (collect other results).toOption := by
  have iff (noticed : Nat) (values : List α) :
      (collect noticed results).toOption = some values ↔ results = values.map .ok := by
    rw [← @collect_eq_ok_iff _ noticed]
    cases collect noticed results <;> simp [Except.toOption]
  apply Option.ext
  intro values
  rw [iff, iff]

/-- Which failure is noticed does not decide whether a table can be classified, nor how. -/
theorem toOption_build (context : MatchContext) (rows : List HandlerRow) (noticed other : Nat) :
    (build context rows noticed).toOption = (build context rows other).toOption := by
  rw [build, build, buildWith, buildWith, buildBy, buildBy]
  cases firstRepeated? [] (rows.map HandlerRow.code) with
  | some code => rfl
  | none =>
    dsimp only
    rw [toOption_bind, toOption_bind, toOption_collect noticed other]

end Catalog

namespace Workbench

theorem fatal_onlyFails (part : String) (result : Except Error α) :
    OnlyFails Error.IsBootstrap (fatal part result) := by
  cases result with
  | ok value => exact .ok value
  | error e => cases e <;> exact .error ⟨_, rfl⟩

theorem prepare_onlyFails (settings : Settings) (host : Host) (interpreter : Interpreter) :
    OnlyFails Error.IsBootstrap (prepare settings host interpreter) :=
  .bind (fatal_onlyFails _ _) fun _ => .bind (fatal_onlyFails _ _) fun _ =>
    .bind (fatal_onlyFails _ _) fun _ => .bind (fatal_onlyFails _ _) fun _ =>
      .bind (fatal_onlyFails _ _) fun _ => .bind (fatal_onlyFails _ _) fun _ => .ok _

/-- Preparation does not look at the methods, nor at the mask over their keys. -/
theorem prepare_of_methods (settings : Settings) (host : Host) (interpreter : Interpreter)
    (mask : UInt32) (methods : List Stub) :
    prepare settings host { interpreter with mask, methods } =
      (prepare settings host interpreter).map fun bench => { bench with mask } := by
  simp only [prepare, bind, Except.bind]
  repeat' split
  all_goals rfl

theorem toOption_fatal (part : String) (result : Except Error α) :
    (fatal part result).toOption = result.toOption := by
  cases result with
  | ok value => rfl
  | error e => cases e <;> rfl

/-- Which failure is noticed does not decide whether the preparation fails, nor what it comes to. -/
theorem toOption_prepare_noticed (settings : Settings) (host : Host) (interpreter : Interpreter)
    (noticed : Nat) :
    (prepare { settings with noticed } host interpreter).toOption =
      (prepare settings host interpreter).toOption.map fun bench =>
        { bench with settings := { bench.settings with noticed } } := by
  have built := Catalog.toOption_build ⟨host, interpreter.anchors⟩ interpreter.handlers
    { settings with noticed }.noticedFailure settings.noticedFailure
  simp only [prepare, toOption_bind, toOption_fatal, built, Option.map_bind, Function.comp_def]
  rfl

/-- A preparation that fails does so whichever failure is noticed. -/
theorem exists_prepare_noticed_eq_error {settings : Settings} {host : Host}
    {interpreter : Interpreter} {e : Error} (fails : prepare settings host interpreter = .error e)
    (noticed : Nat) :
    ∃ e', prepare { settings with noticed } host interpreter = .error e' ∧
      (noticed = settings.noticed → e' = e) := by
  have same := toOption_prepare_noticed settings host interpreter noticed
  rw [fails] at same
  cases again : prepare { settings with noticed } host interpreter with
  | ok bench =>
    rw [again] at same
    cases same
  | error e' =>
    refine ⟨e', rfl, ?_⟩
    rintro rfl
    exact Except.error.inj (again.symm.trans fails)

/-- A part of the preparation at work on a module that could be changed. -/
def preparePart (part : String) (work : Host → Except Error α) : ResolveM α := do
  Resolver.lift (fatal part (work (← get).host))

/-- The preparation at work on a module that could be changed. -/
def prepareOn (settings : Settings) (interpreter : Interpreter) : ResolveM Workbench := do
  let general ← preparePart "general byte order" interpreter.general.profile
  let instruction ← preparePart "instruction byte order" interpreter.instruction.profile
  let layout ← preparePart "record layout" interpreter.layout.layout
  let catalog ← preparePart "opcode catalog" fun host =>
    Catalog.build ⟨host, interpreter.anchors⟩ interpreter.handlers settings.noticedFailure
  let resolverStream ← preparePart "resolver stream" fun _ => interpreter.resolverStream.openLayers
  let methodStream ← preparePart "method stream" fun _ => interpreter.methodStream.openLayers
  return {
    settings
    profiles := ⟨general, instruction⟩
    layout
    catalog
    resolverStream
    methodStream
    mask := interpreter.mask }

/-- An operation comes to some result and leaves the session as it is. -/
def Looks (session : Session) (operation : ResolveM α) (result : Except Error α) : Prop :=
  operation.run.run session = (result, session)

theorem Looks.bind {session : Session} {first : ResolveM α} {next : α → ResolveM β}
    {result : Except Error α} {others : α → Except Error β} (now : Looks session first result)
    (later : ∀ value, Looks session (next value) (others value)) :
    Looks session (first >>= next) (result >>= others) := by
  rw [Looks, run_bind, now]
  cases result with
  | ok value => exact later value
  | error e => rfl

theorem looks_preparePart (part : String) (work : Host → Except Error α) (session : Session) :
    Looks session (preparePart part work) (fatal part (work session.host)) := by
  rw [Looks, preparePart, run_get_bind]
  cases fatal part (work session.host) with
  | ok value => rfl
  | error e => rfl

/-- However the preparation ends, nothing has been done to the module. -/
theorem looks_prepareOn (settings : Settings) (interpreter : Interpreter) (session : Session) :
    Looks session (prepareOn settings interpreter) (prepare settings session.host interpreter) :=
  .bind (looks_preparePart _ _ _) fun _ => .bind (looks_preparePart _ _ _) fun _ =>
    .bind (looks_preparePart _ _ _) fun _ => .bind (looks_preparePart _ _ _) fun _ =>
      .bind (looks_preparePart _ _ _) fun _ => .bind (looks_preparePart _ _ _) fun _ => rfl

/-! ### Methods -/

/-- The recovery of one method at work on a module. Whatever it ends in becomes its report. -/
def recoverOn (bench : Workbench) (stub : Stub) : ResolveM MethodReport := do
  let (result, state) := (Recovering.recover bench).run.run (bench.begin (← get) stub)
  set state.session
  return state.report stub.token result

theorem run_recoverOn (bench : Workbench) (stub : Stub) (session : Session) :
    (bench.recoverOn stub).run.run session =
      (.ok (bench.recoverMethod session stub).1, (bench.recoverMethod session stub).2) := rfl

theorem run_mapM_recoverOn (bench : Workbench) (stubs : List Stub) (session : Session) :
    (stubs.mapM bench.recoverOn).run.run session =
      (.ok (bench.recoverAll session stubs).1, (bench.recoverAll session stubs).2) := by
  induction stubs generalizing session with
  | nil => rfl
  | cons stub rest ih =>
    rw [List.mapM_cons, run_bind_ok (bench.run_recoverOn stub session), run_bind_ok (ih _),
      run_pure, recoverAll_cons]

/-- The report on a method is that of its recovery after those before it. -/
theorem getElem?_recoverAll (bench : Workbench) (session : Session) (stubs : List Stub) (i : Nat) :
    (bench.recoverAll session stubs).1[i]? =
      stubs[i]?.map fun stub =>
        (bench.recoverMethod (bench.recoverAll session (stubs.take i)).2 stub).1 := by
  induction stubs generalizing session i with
  | nil => rfl
  | cons stub rest ih =>
    rw [recoverAll_cons]
    cases i with
    | zero => rfl
    | succ i =>
      rw [List.getElem?_cons_succ, ih, List.getElem?_cons_succ, List.take_succ_cons,
        recoverAll_cons]

/-- A method that fails is charged with its error, which is not a fatal one: it is reported as lost,
with the kind and the wording of the error, and no body is written back. -/
def Charges (bench : Workbench) (session : Session) (stub : Stub) (report : MethodReport) : Prop :=
  ∀ e state, (Recovering.recover bench).run.run (bench.begin session stub) = (.error e, state) →
    e.isFatal = false ∧ report.token = stub.token ∧ report.status = .unrecoverable ∧
      report.failure = some e.kind ∧ report.message = some e.message ∧ report.isSpliced = false ∧
      state.session.host.replaced = session.host.replaced

theorem recoverMethod_charges (bench : Workbench) (session : Session) (stub : Stub) :
    bench.Charges session stub (bench.recoverMethod session stub).1 := by
  intro e state fails
  have ends := @Recovering.recover_ends bench _ (bench.begin_at session stub)
  have written := (bench.recoverMethod_reports session stub).2.2
  rw [recoverMethod_eq, fails] at written ⊢
  rw [fails] at ends
  cases ends with
  | failed failed =>
    exact ⟨failed.ordinary.isFatal_eq_false, rfl, rfl, rfl, rfl, rfl, written⟩

end Workbench

/-! ### Runs -/

/-- A run at work on a module. -/
def recoverOn (settings : Settings) (interpreter : Interpreter) : ResolveM Report := do
  let bench ← Workbench.prepareOn settings interpreter
  let methods ← interpreter.methods.mapM bench.recoverOn
  return {
    methods
    opcodes := bench.catalog.size
    identified := bench.catalog.identifiedCount }

section

variable {settings : Settings} {host : Host} {interpreter : Interpreter}

theorem recoverModule_of_prepare_error {e : Error}
    (fails : Workbench.prepare settings host interpreter = .error e) :
    recoverModule settings host interpreter = .error e ∧
      (recoverOn settings interpreter).run.run { host } = (.error e, { host }) := by
  have prepared : Workbench.Looks { host } (Workbench.prepareOn settings interpreter) (.error e) :=
    fails ▸ Workbench.looks_prepareOn settings interpreter { host }
  rw [recoverModule, fails, recoverOn, run_bind_error prepared]
  exact ⟨rfl, rfl⟩

theorem recoverModule_of_prepare_ok {bench : Workbench}
    (prepares : Workbench.prepare settings host interpreter = .ok bench) :
    ∃ report after, recoverModule settings host interpreter = .ok (report, after.host) ∧
      (recoverOn settings interpreter).run.run { host } = (.ok report, after) ∧
      report.methods = (bench.recoverAll { host } interpreter.methods).1 := by
  have prepared : Workbench.Looks { host } (Workbench.prepareOn settings interpreter) (.ok bench) :=
    prepares ▸ Workbench.looks_prepareOn settings interpreter { host }
  rw [recoverModule, prepares, recoverOn, run_bind_ok prepared,
    run_bind_ok (bench.run_mapM_recoverOn interpreter.methods { host }), run_pure]
  exact ⟨_, _, rfl, rfl, rfl⟩

end

/-- A run fails only in its preparation, with a fatal error, and leaves the module as it was. It
fails with any other methods too and whichever failure is noticed, with the same error if that is
the same one. Once all is prepared it comes to an end whatever the methods and the streams hold,
with one report for each method, and a method that fails is charged with its error. -/
theorem recoverModule_contained (settings : Settings) (host : Host) (interpreter : Interpreter) :
    (∀ e, recoverModule settings host interpreter = .error e →
      e.IsBootstrap ∧ (recoverOn settings interpreter).run.run { host } = (.error e, { host }) ∧
        Workbench.prepare settings host interpreter = .error e ∧
        ∀ noticed mask methods, ∃ e',
          recoverModule { settings with noticed } host { interpreter with mask, methods } =
              .error e' ∧
            (noticed = settings.noticed → e' = e)) ∧
    ∀ bench, Workbench.prepare settings host interpreter = .ok bench →
      ∃ report after, recoverModule settings host interpreter = .ok (report, after.host) ∧
        (recoverOn settings interpreter).run.run { host } = (.ok report, after) ∧
        report.methods.length = interpreter.methods.length ∧
        ∀ i stub, interpreter.methods[i]? = some stub → ∃ method, report.methods[i]? = some method ∧
          bench.Charges (bench.recoverAll { host } (interpreter.methods.take i)).2 stub method := by
  constructor
  · intro e failed
    cases prepared : Workbench.prepare settings host interpreter with
    | error e' =>
      obtain ⟨same, unchanged⟩ := recoverModule_of_prepare_error prepared
      cases same.symm.trans failed
      refine ⟨Workbench.prepare_onlyFails settings host interpreter e prepared, unchanged, rfl,
        fun noticed mask methods => ?_⟩
      obtain ⟨e', fails, same⟩ := Workbench.exists_prepare_noticed_eq_error prepared noticed
      refine ⟨e', (recoverModule_of_prepare_error ?_).1, same⟩
      rw [Workbench.prepare_of_methods, fails]
      rfl
    | ok bench =>
      obtain ⟨_, _, ends, _⟩ := recoverModule_of_prepare_ok prepared
      cases ends.symm.trans failed
  · intro bench prepared
    obtain ⟨report, after, ends, ran, methods⟩ := recoverModule_of_prepare_ok prepared
    have count := congrArg List.length (bench.recoverAll_reports { host } interpreter.methods).1
    rw [List.length_map, List.length_map, ← methods] at count
    refine ⟨report, after, ends, ran, count, fun i stub found => ⟨_, ?_,
      bench.recoverMethod_charges _ stub⟩⟩
    rw [methods, bench.getElem?_recoverAll, found]
    rfl

namespace MaskedTwice

/-- A method stream under two masks, where there can only be one. -/
def interpreter : Interpreter :=
  { ThreeOutcomes.interpreter with
    methodStream := { data := [1, 2], layers := [.mask 1, .mask 2] } }

theorem recoverModule_contained_masks : ∃ e,
    recoverModule {} ThreeOutcomes.host interpreter = .error e ∧ e.IsBootstrap ∧
      (recoverOn {} interpreter).run.run { host := ThreeOutcomes.host } =
        (.error e, { host := ThreeOutcomes.host }) := by
  have fails : (recoverModule {} ThreeOutcomes.host interpreter).toOption.isSome = false := by
    decide +kernel
  cases ran : recoverModule {} ThreeOutcomes.host interpreter with
  | ok outcome =>
    rw [ran] at fails
    cases fails
  | error e =>
    obtain ⟨fatal, unchanged, _⟩ :=
      (recoverModule_contained {} ThreeOutcomes.host interpreter).1 e ran
    exact ⟨e, rfl, fatal, unchanged⟩

end MaskedTwice

end CilRecovery
