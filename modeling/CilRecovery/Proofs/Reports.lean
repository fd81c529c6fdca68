import CilRecovery.Proofs.Boundaries
import CilRecovery.Proofs.Recovery

/-!
Reports against the module they are about. A run has one report for each stub, every report has
one of three shapes, and the bodies written back are those of the reports that say so. The labels
of a body that is reported whole are in place.
-/
namespace CilRecovery

/-- Sets the values of keys one after the other. -/
def Table.insertAll [DecidableEq Key] (table : Table Key Value) (entries : List (Key × Value)) :
    Table Key Value :=
  entries.foldl (fun table entry => table.insert entry.1 entry.2) table

theorem Table.get?_insertAll_of_notMem [DecidableEq Key] (table : Table Key Value)
    {entries : List (Key × Value)} {key : Key} (absent : key ∉ entries.map Prod.fst) :
    (table.insertAll entries).get? key = table.get? key := by
  induction entries generalizing table with
  | nil => rfl
  | cons entry rest ih =>
    rw [List.map_cons, List.mem_cons, not_or] at absent
    change ((table.insert entry.1 entry.2).insertAll rest).get? key = table.get? key
    rw [ih _ absent.2, Table.get?_insert, if_neg absent.1]

namespace MethodReport

/-- The shape that a report has by its status. -/
def Consistent (catalog : Catalog) (options : OutputOptions) (report : MethodReport) : Prop :=
  match report.status with
  | .full =>
    report.stage = .spliced ∧ report.isSpliced = true ∧ report.failure = none ∧
      report.message = none ∧ report.placeholders = 0
  | .degraded =>
    report.stage = .partiallyRecovered ∧ report.isSpliced = !options.onlyRecovered ∧
      report.placeholders = 1 ∧
      ∃ stop : DecodeStop, stop.Justified catalog ∧ report.message = some stop.message ∧
        report.failure =
          match stop.reason with
          | .unknownCode => some .streamDesync
          | .unidentified => none
  | .unrecoverable =>
    report.stage = .unrecoverable ∧ report.isSpliced = false ∧ report.instructions = 0 ∧
      report.placeholders = 0 ∧ report.message.isSome ∧
      ∃ kind, report.failure = some kind ∧ kind ≠ .bootstrap ∧ kind ≠ .streamDesync

/-- A report counts what is in a body that was written back for its method. -/
structure Describes (report : MethodReport) (splice : Token × MethodBody) : Prop where
  token : report.token = splice.1
  instructions : report.instructions = splice.2.instructions.length
  placeholders : report.placeholders = splice.2.placeholderCount

end MethodReport

/-- The stubs whose bodies were written back, with the reports on them. -/
def splicedEntries (stubs : List Stub) (reports : List MethodReport) :
    List (Stub × MethodReport) :=
  (stubs.zip reports).filter fun entry => entry.2.isSpliced

theorem splicedEntries_cons (stub : Stub) (stubs : List Stub) (report : MethodReport)
    (reports : List MethodReport) :
    splicedEntries (stub :: stubs) (report :: reports) =
      if report.isSpliced then (stub, report) :: splicedEntries stubs reports
      else splicedEntries stubs reports := by
  rw [splicedEntries, List.zip_cons_cons, List.filter_cons]
  rfl

theorem map_snd_splicedEntries {stubs : List Stub} {reports : List MethodReport}
    (le : reports.length ≤ stubs.length) :
    (splicedEntries stubs reports).map Prod.snd = reports.filter MethodReport.isSpliced := by
  rw [← List.map_snd_zip le, List.filter_map, List.map_snd_zip le]
  rfl

/-- What a stub and the report on it show of a body that was written back. -/
structure Workbench.Shows (bench : Workbench) (entry : Stub × MethodReport)
    (splice : Token × MethodBody) : Prop where
  describes : entry.2.Describes splice
  placed : entry.2.status = .full → ∃ key records,
    PositionKey.decode bench.mask entry.1.key = .ok key ∧
      bench.handlerRecords key = .ok records ∧ splice.2.Placed records

/-- The bodies before and after the recovery of a method, as its report has it. -/
def Workbench.Writes (bench : Workbench) (entry : Stub × MethodReport)
    (before after : Table Token MethodBody) : Prop :=
  if entry.2.isSpliced then
    ∃ body, bench.Shows entry (entry.2.token, body) ∧
      after = before.insert entry.2.token body
  else after = before

namespace Recovering

variable {bench : Workbench} {start state : Recovering} {result : Except Error Recovered}

theorem token_report (token : Token) (state : Recovering) (result : Except Error Recovered) :
    (state.report token result).token = token := by
  cases result with
  | ok recovered => rfl
  | error e => rfl

theorem Ends.consistent (ends : Ends bench start result state) (token : Token) :
    (state.report token result).Consistent bench.catalog bench.settings.output := by
  cases ends with
  | failed fails =>
    have stage : state.progress.fail.stage = .unrecoverable := by
      rw [Progress.fail, fails.early]
      rfl
    exact ⟨stage, rfl, rfl, rfl, rfl, _, rfl, fails.ordinary⟩
  | @full _ _ _ _ decoded _ keyed tabled linked whole handlers instructions stands =>
    have none : decoded.instructions.countP Instruction.isPlaceholder = 0 := by
      rw [linked.countP_isPlaceholder, whole]
      rfl
    rw [MethodReport.Consistent, report, stands.status]
    exact ⟨stands.stage, rfl, rfl, rfl, none⟩
  | @degraded _ _ decoded stop _ linked stopped instructions stands =>
    have one : decoded.instructions.countP Instruction.isPlaceholder = 1 := by
      rw [linked.countP_isPlaceholder, stopped]
      rfl
    have failure : stop.error?.map Error.kind =
        match stop.reason with
        | .unknownCode => some .streamDesync
        | .unidentified => none := by
      rw [DecodeStop.error?]
      cases stop.reason with
      | unknownCode => rfl
      | unidentified => rfl
    rw [MethodReport.Consistent, report, stands.status]
    exact ⟨stands.stage, rfl, one, stop, linked.justified stopped, rfl, failure⟩

theorem Ends.writes {session : Session} {stub : Stub}
    (ends : Ends bench (bench.begin session stub) result state) :
    bench.Writes (stub, state.report stub.token result)
      (bench.begin session stub).session.host.replaced state.session.host.replaced := by
  cases ends with
  | failed fails =>
    obtain ⟨methods, fields, _, same⟩ := fails.grows
    change state.session.host.replaced = (bench.begin session stub).session.host.replaced
    rw [same]
  | @full _ key records _ decoded body keyed tabled linked whole handlers instructions stands =>
    have placed := MethodBody.placed linked whole instructions handlers
    refine ⟨body, ⟨⟨rfl, ?_, ?_⟩, fun _ => ⟨key, records, keyed, tabled, placed⟩⟩, stands.replaced⟩
    · rw [instructions]
      rfl
    · rw [MethodBody.placeholderCount, instructions]
      rfl
  | @degraded _ _ decoded stop body linked stopped instructions stands =>
    have replaced := stands.replaced
    cases only : bench.settings.output.onlyRecovered with
    | true =>
      rw [only, if_pos rfl] at replaced
      exact replaced
    | false =>
      rw [only, if_neg Bool.false_ne_true] at replaced
      refine ⟨body, ⟨⟨rfl, ?_, ?_⟩, fun whole => ?_⟩, replaced⟩
      · rw [instructions]
        rfl
      · rw [MethodBody.placeholderCount, instructions]
        rfl
      · cases stands.status.symm.trans whole

end Recovering

namespace Workbench

@[simp]
theorem freshSession_host (bench : Workbench) (session : Session) :
    (bench.freshSession session).host = session.host := by
  rw [freshSession]
  split <;> rfl

theorem begin_host (bench : Workbench) (session : Session) (stub : Stub) :
    (bench.begin session stub).session.host = session.host :=
  bench.freshSession_host session

theorem begin_at (bench : Workbench) (session : Session) (stub : Stub) :
    (bench.begin session stub).At .start .full (bench.begin session stub) :=
  ⟨refl_of Session.Grows _, rfl, rfl, rfl⟩

theorem recoverMethod_eq (bench : Workbench) (session : Session) (stub : Stub) :
    bench.recoverMethod session stub =
      (Recovering.report stub.token
        ((Recovering.recover bench).run.run (bench.begin session stub)).2
        ((Recovering.recover bench).run.run (bench.begin session stub)).1,
        ((Recovering.recover bench).run.run (bench.begin session stub)).2.session) := rfl

/-- Recovering one method gives a report of one of the shapes and writes what the report says. -/
theorem recoverMethod_reports (bench : Workbench) (session : Session) (stub : Stub) :
    (bench.recoverMethod session stub).1.token = stub.token ∧
      (bench.recoverMethod session stub).1.Consistent bench.catalog bench.settings.output ∧
      bench.Writes (stub, (bench.recoverMethod session stub).1) session.host.replaced
        (bench.recoverMethod session stub).2.host.replaced := by
  have ends := @Recovering.recover_ends bench _ (bench.begin_at session stub)
  rw [recoverMethod_eq]
  generalize (Recovering.recover bench).run.run (bench.begin session stub) = outcome at ends ⊢
  have writes := ends.writes
  rw [begin_host] at writes
  exact ⟨Recovering.token_report _ _ _, ends.consistent _, writes⟩

theorem recoverAll_cons (bench : Workbench) (session : Session) (stub : Stub) (rest : List Stub) :
    bench.recoverAll session (stub :: rest) =
      ((bench.recoverMethod session stub).1 ::
        (bench.recoverAll (bench.recoverMethod session stub).2 rest).1,
        (bench.recoverAll (bench.recoverMethod session stub).2 rest).2) := rfl

/-- Recovering methods one after the other gives their reports in order, and writes the bodies of
those reports that say so, in order. -/
theorem recoverAll_reports (bench : Workbench) (session : Session) (stubs : List Stub) :
    (bench.recoverAll session stubs).1.map MethodReport.token = stubs.map Stub.token ∧
      (∀ report ∈ (bench.recoverAll session stubs).1,
        report.Consistent bench.catalog bench.settings.output) ∧
      ∃ splices,
        List.Forall₂ bench.Shows (splicedEntries stubs (bench.recoverAll session stubs).1) splices ∧
        (bench.recoverAll session stubs).2.host.replaced =
          session.host.replaced.insertAll splices := by
  induction stubs generalizing session with
  | nil => exact ⟨rfl, by simp [recoverAll], [], .nil, rfl⟩
  | cons stub rest ih =>
    obtain ⟨token, consistent, writes⟩ := bench.recoverMethod_reports session stub
    obtain ⟨tokens, shapes, splices, shown, replaced⟩ :=
      ih (bench.recoverMethod session stub).2
    rw [recoverAll_cons]
    refine ⟨by rw [List.map_cons, List.map_cons, token, tokens], ?_, ?_⟩
    · intro report member
      rcases List.mem_cons.mp member with rfl | later
      · exact consistent
      · exact shapes report later
    · rw [Writes] at writes
      rw [splicedEntries_cons]
      split at writes
      · rename_i isSpliced
        obtain ⟨body, shows, written⟩ := writes
        refine ⟨((bench.recoverMethod session stub).1.token, body) :: splices, ?_, ?_⟩
        · rw [if_pos isSpliced]
          exact .cons shows shown
        · rw [replaced, written]
          rfl
      · rename_i kept
        refine ⟨splices, ?_, ?_⟩
        · rw [if_neg kept]
          exact shown
        · rw [replaced, writes]

theorem prepare_settings {settings : Settings} {host : Host} {interpreter : Interpreter}
    {bench : Workbench} (prepared : prepare settings host interpreter = .ok bench) :
    bench.settings = settings := by
  simp only [prepare, bind, Except.bind] at prepared
  repeat' split at prepared
  all_goals cases prepared
  rfl

end Workbench

/-- A report agrees with what a run made of a module. -/
structure Report.Agrees (catalog : Catalog) (options : OutputOptions) (stubs : List Stub)
    (before after : Host) (report : Report) : Prop where
  /-- There is one report for each stub, in order. -/
  tokens : report.methods.map MethodReport.token = stubs.map Stub.token
  shapes : ∀ method ∈ report.methods, method.Consistent catalog options
  /-- The bodies were written in the order of the reports that say so. -/
  splices : ∃ splices,
    List.Forall₂ MethodReport.Describes (report.methods.filter MethodReport.isSpliced) splices ∧
      after.replaced = before.replaced.insertAll splices
  /-- All other methods kept the body they had. -/
  kept : ∀ token, token ∉ (report.methods.filter MethodReport.isSpliced).map MethodReport.token →
    after.replaced.get? token = before.replaced.get? token

theorem MethodReport.map_token_of_describes {reports : List MethodReport}
    {splices : List (Token × MethodBody)} (described : List.Forall₂ Describes reports splices) :
    reports.map token = splices.map Prod.fst := by
  induction described with
  | nil => rfl
  | cons describes _ ih => rw [List.map_cons, List.map_cons, describes.token, ih]

/-- A run that comes to an end is that of the workbench it prepares. -/
theorem exists_bench_of_recoverModule {settings : Settings} {host after : Host}
    {interpreter : Interpreter} {report : Report}
    (ran : recoverModule settings host interpreter = .ok (report, after)) :
    ∃ bench, Workbench.prepare settings host interpreter = .ok bench ∧
      report.methods = (bench.recoverAll { host } interpreter.methods).1 ∧
      after = (bench.recoverAll { host } interpreter.methods).2.host := by
  rw [recoverModule] at ran
  cases prepared : Workbench.prepare settings host interpreter with
  | error e =>
    rw [prepared] at ran
    cases ran
  | ok bench =>
    rw [prepared] at ran
    cases ran
    exact ⟨bench, rfl, rfl, rfl⟩

/-- Whenever a run comes to an end, its report agrees with what it made of the module. -/
theorem recoverModule_agrees {settings : Settings} {host after : Host} {interpreter : Interpreter}
    {report : Report} (ran : recoverModule settings host interpreter = .ok (report, after)) :
    ∃ bench, Workbench.prepare settings host interpreter = .ok bench ∧
      report.Agrees bench.catalog settings.output interpreter.methods host after := by
  obtain ⟨bench, prepared, methods, rfl⟩ := exists_bench_of_recoverModule ran
  obtain ⟨tokens, shapes, splices, shown, replaced⟩ :=
    bench.recoverAll_reports { host } interpreter.methods
  rw [Workbench.prepare_settings prepared] at shapes
  rw [← methods] at tokens shapes shown
  have count := congrArg List.length tokens
  rw [List.length_map, List.length_map] at count
  have described : List.Forall₂ MethodReport.Describes
      (report.methods.filter MethodReport.isSpliced) splices := by
    rw [← map_snd_splicedEntries (Nat.le_of_eq count), List.forall₂_map_left_iff]
    exact shown.imp fun _ _ shows => shows.describes
  refine ⟨bench, prepared, tokens, shapes, ⟨splices, described, replaced⟩, fun token absent => ?_⟩
  rw [MethodReport.map_token_of_describes described] at absent
  rw [← Table.get?_insertAll_of_notMem host.replaced absent, ← replaced]

namespace ThreeOutcomes

/-- A module with a token for a type and two methods. -/
def host : Host :=
  let first : MethodRef := ⟨.primitive .object, "first", { ret := .void }, []⟩
  let second : MethodRef := ⟨.primitive .object, "second", { ret := .void }, []⟩
  let host : Host := { name := "sample" }
  let (_, host) := (host.addToken ⟨0x02000001⟩ (.type .void)).defineMethod first []
  (host.defineMethod second []).2

/-- The header of a method without locals and parameters, all of whose types are at position 0. -/
def header : Bytes := List.replicate 18 0

/-- The first method has no code, the second has one instruction, which is not in the catalog, and
the third has a key that leads nowhere. -/
def interpreter : Interpreter where
  resolverStream := { data := [0, 1, 0, 0, 2] }
  methodStream := { data :=
    header ++ [0, 0, 0, 0] ++ [0, 0, 0, 0] ++ header ++ [0, 0, 0, 0] ++ [2, 0, 0, 0] ++ [7, 0] }
  handlers := []
  anchors := default
  general := .known default
  instruction := .known default
  layout := .known {}
  mask := 0
  methods := [⟨⟨0x06000001⟩, "AAAAAAAAAAA="⟩, ⟨⟨0x06000002⟩, "GgAAAAAAAAA="⟩, ⟨⟨0x06000003⟩, "?"⟩]

theorem recoverModule_agrees_three : ∃ report after,
    recoverModule {} host interpreter = .ok (report, after) ∧
      report.methods.map MethodReport.status = [.full, .degraded, .unrecoverable] ∧
      ∃ bench, Workbench.prepare {} host interpreter = .ok bench ∧
        report.Agrees bench.catalog {} interpreter.methods host after := by
  have statuses : (recoverModule {} host interpreter).toOption.map
      (fun outcome => outcome.1.methods.map MethodReport.status) =
        some [.full, .degraded, .unrecoverable] := by decide +kernel
  cases ran : recoverModule {} host interpreter with
  | error e =>
    rw [ran] at statuses
    cases statuses
  | ok outcome =>
    rw [ran] at statuses
    exact ⟨outcome.1, outcome.2, rfl, Option.some.inj statuses, recoverModule_agrees ran⟩

end ThreeOutcomes

/-- Whenever a run comes to an end, the bodies it wrote are shown by its reports. One that is
reported whole has all labels in range exactly if its handlers start at or before an instruction. -/
theorem recoverModule_shows {settings : Settings} {host after : Host} {interpreter : Interpreter}
    {report : Report} (ran : recoverModule settings host interpreter = .ok (report, after)) :
    ∃ bench splices, Workbench.prepare settings host interpreter = .ok bench ∧
      after.replaced = host.replaced.insertAll splices ∧
      List.Forall₂ bench.Shows (splicedEntries interpreter.methods report.methods) splices := by
  obtain ⟨bench, prepared, methods, rfl⟩ := exists_bench_of_recoverModule ran
  obtain ⟨_, _, splices, shown, replaced⟩ := bench.recoverAll_reports { host } interpreter.methods
  rw [← methods] at shown
  exact ⟨bench, splices, prepared, replaced, shown⟩

namespace HandlerBehindCode

/-- A method without code and with one handler, whose ranges start at the end of the code. -/
def interpreter : Interpreter :=
  { ThreeOutcomes.interpreter with
    methodStream := { data :=
      ThreeOutcomes.header ++ [1, 0, 0, 0] ++ 2 :: List.replicate 24 0 ++ [0, 0, 0, 0] }
    methods := [⟨⟨0x06000001⟩, "AAAAAAAAAAA="⟩] }

/-- The method is reported whole, but the handler starts at no instruction of its body. -/
theorem labelsInRange_eq_false : ∃ report after body,
    recoverModule {} ThreeOutcomes.host interpreter = .ok (report, after) ∧
      report.methods.map MethodReport.status = [.full] ∧
      after.replaced.get? ⟨0x06000001⟩ = some body ∧ body.labelsInRange = false := by
  have outcome : (recoverModule {} ThreeOutcomes.host interpreter).toOption.map (fun outcome =>
      (outcome.1.methods.map MethodReport.status,
        (outcome.2.replaced.get? ⟨0x06000001⟩).map MethodBody.labelsInRange)) =
      some ([.full], some false) := by decide +kernel
  obtain ⟨⟨report, after⟩, ran, ends⟩ := Option.map_eq_some_iff.mp outcome
  obtain ⟨statuses, labels⟩ := Prod.mk.inj ends
  obtain ⟨body, replaced, outside⟩ := Option.map_eq_some_iff.mp labels
  cases result : recoverModule {} ThreeOutcomes.host interpreter with
  | error e =>
    rw [result] at ran
    cases ran
  | ok value =>
    rw [result] at ran
    cases ran
    exact ⟨report, after, body, rfl, statuses, replaced, outside⟩

theorem recoverModule_shows_handler : ∃ report after,
    recoverModule {} ThreeOutcomes.host interpreter = .ok (report, after) ∧
      ∃ bench splices, Workbench.prepare {} ThreeOutcomes.host interpreter = .ok bench ∧
        after.replaced = ThreeOutcomes.host.replaced.insertAll splices ∧
        List.Forall₂ bench.Shows (splicedEntries interpreter.methods report.methods) splices := by
  have ends : (recoverModule {} ThreeOutcomes.host interpreter).toOption.isSome := by
    decide +kernel
  cases ran : recoverModule {} ThreeOutcomes.host interpreter with
  | error e =>
    rw [ran] at ends
    cases ends
  | ok outcome => exact ⟨outcome.1, outcome.2, rfl, recoverModule_shows ran⟩

end HandlerBehindCode

end CilRecovery
