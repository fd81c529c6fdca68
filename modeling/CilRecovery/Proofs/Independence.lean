import CilRecovery.Proofs.Containment
import CilRecovery.Proofs.Steady
import Mathlib.Data.List.Nodup

/-!
Methods recovered independently of each other. Whatever becomes of the others, a method comes to the
same report and the same body among them as alone, unless a reference imported before its turn
answers one of its queries otherwise, or it shares results and runs out of depth alone.
-/
namespace CilRecovery

/-- The queries for methods that a session has met, with their answers. -/
def Resolver.queries (resolver : Resolver) (session : Session) : List (MethodQuery × MethodRef) :=
  session.memo.entries.filterMap fun entry => do
    let record ← (resolver.readRecord entry.1).toOption
    let query ← session.query? record
    match entry.2 with
    | some (.method method) => return (query, method)
    | _ => none

theorem Resolver.mem_queries {resolver : Resolver} {session : Session} {key : Nat}
    {record : OperandRecord} {query : MethodQuery} {method : MethodRef}
    (known : session.memo.get? key = some (some (.method method)))
    (reads : resolver.readRecord key = .ok record) (asked : session.query? record = some query) :
    (query, method) ∈ resolver.queries session := by
  obtain ⟨front, back, entries, _⟩ := List.lookup_eq_some_iff.mp known
  refine List.mem_filterMap.mpr ⟨(key, some (.method method)), ?_, ?_⟩
  · rw [entries]
    simp
  · rw [reads, Except.toOption, Option.bind_eq_bind, Option.bind_some, asked]
    rfl

theorem Resolver.sound_of_memo_eq_empty {resolver : Resolver} {session : Session}
    (empty : session.memo = {}) : resolver.Sound session := by
  intro key value known
  rw [empty] at known
  cases known

namespace Workbench

/-- Recovers a method with nothing recovered before it. -/
def alone (bench : Workbench) (host : Host) (stub : Stub) : MethodReport × Session :=
  bench.recoverMethod { host } stub

/-- The resolver that a method is recovered with. -/
def resolverOf (bench : Workbench) (stub : Stub) : Resolver :=
  match PositionKey.decode bench.mask stub.key with
  | .ok key => bench.resolver key.seed
  | .error _ => bench.resolver 0

/-- Whether a method runs out of depth alone. -/
def exhausts (bench : Workbench) (host : Host) (stub : Stub) : Bool :=
  match ((Recovering.recover bench).run.run (bench.begin { host } stub)).1 with
  | .error (.recursionLimit _) => true
  | _ => false

/-- Whether a reference imported before the turn of a method answers one of its queries otherwise.
What a type of the module or an import of the module answers is left alone. -/
def disturbed (bench : Workbench) (host : Host) (before : List Stub) (stub : Stub) : Bool :=
  ((bench.resolverOf stub).queries (bench.alone host stub).2).any fun (query, method) =>
    !query.isInternal host && (query.findImported? host.importedMethods).isNone &&
      (bench.recoverAll { host } before).2.host.importedMethods.any fun reference =>
        query.answeredBy reference && reference.sig ≠ method.sig

end Workbench

/-- The methods before the turn of one of them. -/
def Stub.before (stub : Stub) (stubs : List Stub) : List Stub :=
  stubs.takeWhile fun other => other.token ≠ stub.token

namespace Workbench

/-- A method that the others do not get in the way of, in some order. -/
structure Apart (bench : Workbench) (host : Host) (stubs : List Stub) (stub : Stub) : Prop where
  /-- Where methods share results, this one does not run out of depth alone. -/
  depth : bench.settings.counters.resolver = .position → bench.exhausts host stub = false
  imports : bench.disturbed host (stub.before stubs) stub = false

instance (bench : Workbench) (host : Host) (stubs : List Stub) (stub : Stub) :
    Decidable (bench.Apart host stubs stub) :=
  decidable_of_iff
    ((bench.settings.counters.resolver = .position → bench.exhausts host stub = false) ∧
      bench.disturbed host (stub.before stubs) stub = false)
    ⟨fun both => ⟨both.1, both.2⟩, fun apart => ⟨apart.depth, apart.imports⟩⟩

/-- A session in which methods were recovered, whatever became of them. -/
structure Passed (bench : Workbench) (host : Host) (session : Session) : Prop where
  follows : host.Follows session.host
  sound : bench.settings.counters.resolver = .position →
    ∀ stub, (bench.resolverOf stub).Sound session

/-- A method among others and alone. -/
def twin (bench : Workbench) (host : Host) (stub : Stub) (foreign : List MethodRef) : Twin where
  resolver := bench.resolverOf stub
  start := host
  foreign
  shared := bench.settings.counters.resolver = .position
  last := (bench.alone host stub).2

section Step

variable {bench : Workbench} {host : Host} {stub : Stub} {session : Session}
  {foreign : List MethodRef}

theorem memo_begin (bench : Workbench) (host : Host) (stub : Stub) :
    (bench.begin { host } stub).session.memo = {} := by
  rw [begin, freshSession]
  split <;> rfl

theorem resolverOf_eq {key : PositionKey} (keyed : PositionKey.decode bench.mask stub.key = .ok key) :
    bench.resolverOf stub = bench.resolver key.seed := by
  rw [resolverOf, keyed]

/-- Methods that share results share their resolver. -/
theorem resolverOf_shared (shared : bench.settings.counters.resolver = .position)
    (stub other : Stub) : bench.resolverOf stub = bench.resolverOf other := by
  have same (seed : UInt32) : bench.resolver seed = bench.resolver 0 := by
    rw [resolver, resolver, CounterPolicy.resolverRule, CounterPolicy.resolverRule, shared]
  have any (stub : Stub) : bench.resolverOf stub = bench.resolver 0 := by
    rw [resolverOf]
    split
    · exact same _
    · rfl
  rw [any, any]

theorem run_recover (bench : Workbench) (session : Session) (stub : Stub) :
    (Recovering.recover bench).run.run (bench.begin session stub) =
      (Recovering.lift (PositionKey.decode bench.mask stub.key) >>=
        Recovering.recoverRecord bench).run.run (bench.begin session stub) := run_get_bind _ _

theorem steady_recover {first second : Table Token MethodBody}
    (undisturbed : (bench.twin host stub foreign).Undisturbed) :
    (bench.twin host stub foreign).Steady first second
      (Recovering.lift (PositionKey.decode bench.mask stub.key) >>=
        Recovering.recoverRecord bench) :=
  .lift_bind fun _ keyed => .recoverRecord undisturbed (resolverOf_eq keyed).symm

/-! ### The others -/

theorem passed_start (bench : Workbench) (host : Host) : bench.Passed host { host } where
  follows := refl_of Host.Follows host
  sound _ _ := Resolver.sound_of_memo_eq_empty rfl

theorem Passed.sound_begin (passed : bench.Passed host session) (stub : Stub) :
    (bench.resolverOf stub).Sound (bench.begin session stub).session := by
  rw [begin, freshSession]
  cases mode : bench.settings.counters.resolver with
  | position => exact passed.sound mode stub
  | methodKey => exact Resolver.sound_of_memo_eq_empty rfl

theorem Passed.exists_foreign (passed : bench.Passed host session) :
    ∃ foreign, session.host.importedMethods = host.importedMethods ++ foreign := by
  obtain ⟨methods, fields, _, same⟩ := passed.follows
  exact ⟨methods, by rw [same]⟩

/-- However the recovery of a method ends, the next one finds a session that it can use. -/
theorem Passed.recoverMethod (passed : bench.Passed host session) (stub : Stub) :
    bench.Passed host (bench.recoverMethod session stub).2 := by
  -- Beside itself a recovery is disturbed by nothing, so it is steady.
  have undisturbed : (bench.twin host stub []).Undisturbed := by
    intro _ _ _ _ _ _ _ _ _ other foreign
    cases foreign
  have steady := @steady_recover bench host stub [] {} {} undisturbed
  have keeps := steady.keeps (bench.begin session stub) (passed.sound_begin stub)
  rw [← run_recover] at keeps
  obtain ⟨sound, since⟩ := keeps
  have since := since.host
  rw [begin_host] at since
  refine ⟨trans_of Host.Follows passed.follows since, fun shared other => ?_⟩
  rw [resolverOf_shared shared other stub]
  exact sound

theorem Passed.recoverAll (passed : bench.Passed host session) (stubs : List Stub) :
    bench.Passed host (bench.recoverAll session stubs).2 := by
  induction stubs generalizing session with
  | nil => exact passed
  | cons stub rest ih =>
    rw [recoverAll_cons]
    exact ih (passed.recoverMethod stub)

/-! ### One method among them -/

theorem undisturbed_twin {before : List Stub} (calm : bench.disturbed host before stub = false)
    (imported : (bench.recoverAll { host } before).2.host.importedMethods =
      host.importedMethods ++ foreign) : (bench.twin host stub foreign).Undisturbed := by
  intro key record query method known reads asked external unanswered reference isForeign answers
  have asks : (query, method) ∈ (bench.resolverOf stub).queries (bench.alone host stub).2 :=
    Resolver.mem_queries known reads asked
  by_contra differs
  have disturbed : bench.disturbed host before stub = true := by
    refine List.any_eq_true.mpr ⟨(query, method), asks, ?_⟩
    have answered : (bench.recoverAll { host } before).2.host.importedMethods.any (fun reference =>
        query.answeredBy reference && reference.sig ≠ method.sig) = true := by
      rw [imported]
      exact List.any_eq_true.mpr
        ⟨reference, List.mem_append_right _ isForeign, by simp [answers, differs]⟩
    have external : query.isInternal host = false := external
    have unanswered : query.findImported? host.importedMethods = none := unanswered
    simp only [external, unanswered, answered, Bool.not_false, Option.isNone_none, Bool.and_self]
  rw [calm] at disturbed
  cases disturbed

/-- A recovery after others begins beside the recovery alone. -/
theorem Passed.alike (passed : bench.Passed host session)
    (imported : session.host.importedMethods = host.importedMethods ++ foreign) :
    (bench.twin host stub foreign).Alike session.host.replaced host.replaced
      (bench.begin session stub) (bench.begin { host } stub) := by
  have fresh := bench.memo_begin host stub
  have aloneHost := bench.begin_host { host } stub
  have amongHost := bench.begin_host session stub
  refine ⟨⟨?_, ?_, passed.sound_begin stub, Resolver.sound_of_memo_eq_empty fresh, ⟨[], ?_, ?_⟩,
    ?_, ?_⟩, rfl, rfl, [], ?_, ?_⟩
  · rw [amongHost]
    exact passed.follows
  · rw [aloneHost]
    exact refl_of Host.Follows host
  · rw [aloneHost, List.append_nil]
    rfl
  · rw [amongHost, imported]
    simp [twin]
  · intro key value known
    rw [fresh] at known
    cases known
  · intro separate key
    have mode : bench.settings.counters.resolver = .methodKey := by
      cases mode : bench.settings.counters.resolver with
      | methodKey => rfl
      | position => simp [twin, mode] at separate
    rw [begin, begin, freshSession, freshSession, mode]
  · rw [amongHost]
    rfl
  · rw [aloneHost]
    rfl

theorem not_deep (depth : bench.settings.counters.resolver = .position →
      bench.exhausts host stub = false) (limit : Nat)
    (shared : bench.settings.counters.resolver = .position) :
    ((Recovering.recover bench).run.run (bench.begin { host } stub)).1 ≠
      .error (.recursionLimit limit) := by
  intro deep
  have ends := depth shared
  rw [exhausts, deep] at ends
  cases ends

/-- A method among others comes to its report alone, and the same bodies are written back. -/
theorem Passed.recoverMethod_alone (passed : bench.Passed host session)
    (imported : session.host.importedMethods = host.importedMethods ++ foreign)
    (undisturbed : (bench.twin host stub foreign).Undisturbed)
    (depth : bench.settings.counters.resolver = .position → bench.exhausts host stub = false) :
    (bench.recoverMethod session stub).1 = (bench.alone host stub).1 ∧ ∃ splices,
      (bench.recoverMethod session stub).2.host.replaced =
          session.host.replaced.insertAll splices ∧
        (bench.alone host stub).2.host.replaced = host.replaced.insertAll splices := by
  have steady := @steady_recover bench host stub foreign session.host.replaced host.replaced
    undisturbed
  have agrees := steady.agrees _ _ (passed.alike imported)
  rw [← run_recover, ← run_recover] at agrees
  have last : (bench.twin host stub foreign).last =
      ((Recovering.recover bench).run.run (bench.begin { host } stub)).2.session := by
    rw [twin, alone, recoverMethod_eq]
  rw [alone, recoverMethod_eq, recoverMethod_eq]
  rcases agrees (last ▸ refl_of Session.Follows _) with ⟨shared, deep⟩ | ⟨same, alike⟩
  · exact absurd deep (not_deep depth _ (by simpa [twin] using shared))
  · rw [same, alike.report]
    exact ⟨rfl, alike.replaced⟩

end Step

/-! ### Runs -/

section Run

variable {bench : Workbench} {host : Host} {stub : Stub} {stubs : List Stub}

theorem recoverAll_append (bench : Workbench) (session : Session) (front back : List Stub) :
    bench.recoverAll session (front ++ back) =
      ((bench.recoverAll session front).1 ++
          (bench.recoverAll (bench.recoverAll session front).2 back).1,
        (bench.recoverAll (bench.recoverAll session front).2 back).2) := by
  induction front generalizing session with
  | nil => rfl
  | cons stub rest ih =>
    rw [List.cons_append, recoverAll_cons, ih, recoverAll_cons, List.cons_append]

theorem Writes.get?_of_ne {entry : Stub × MethodReport} {before after : Table Token MethodBody}
    (writes : bench.Writes entry before after) {token : Token} (differs : token ≠ entry.2.token) :
    after.get? token = before.get? token := by
  rw [Writes] at writes
  split at writes
  · obtain ⟨body, _, rfl⟩ := writes
    rw [Table.get?_insert, if_neg differs]
  · rw [writes]

/-- No method writes the body of another one. -/
theorem get?_replaced_recoverAll {token : Token} (absent : token ∉ stubs.map Stub.token)
    (session : Session) :
    (bench.recoverAll session stubs).2.host.replaced.get? token =
      session.host.replaced.get? token := by
  induction stubs generalizing session with
  | nil => rfl
  | cons stub rest ih =>
    rw [List.map_cons, List.mem_cons, not_or] at absent
    obtain ⟨same, _, writes⟩ := bench.recoverMethod_reports session stub
    rw [recoverAll_cons, ih absent.2]
    exact writes.get?_of_ne (same ▸ absent.1)

end Run

end Workbench

/-- If the tokens are distinct, the methods before one of them are those in front of it. -/
theorem Stub.before_append {stub : Stub} {front back : List Stub}
    (fresh : stub.token ∉ front.map Stub.token) : stub.before (front ++ stub :: back) = front := by
  have others : ∀ other ∈ front, decide (other.token ≠ stub.token) = true := by
    intro other member
    exact decide_eq_true fun same => fresh (same ▸ List.mem_map_of_mem member)
  rw [before, List.takeWhile_append_of_pos others, List.takeWhile_cons_of_neg (by simp),
    List.append_nil]

namespace Workbench

/-- In a run, a method that the others do not get in the way of comes to its report alone, and has
the body that it has alone. -/
theorem Apart.recoverAll {bench : Workbench} {host : Host} {stubs : List Stub} {stub : Stub}
    (apart : bench.Apart host stubs stub) (distinct : (stubs.map Stub.token).Nodup)
    (member : stub ∈ stubs) :
    (bench.alone host stub).1 ∈ (bench.recoverAll { host } stubs).1 ∧
      (bench.recoverAll { host } stubs).2.host.replaced.get? stub.token =
        (bench.alone host stub).2.host.replaced.get? stub.token := by
  obtain ⟨front, back, rfl⟩ := List.append_of_mem member
  rw [List.map_append, List.map_cons, List.nodup_append, List.nodup_cons] at distinct
  obtain ⟨_, ⟨later, _⟩, disjoint⟩ := distinct
  have earlier : stub.token ∉ front.map Stub.token := fun known =>
    disjoint _ known _ (List.mem_cons_self ..) rfl
  have calm := apart.imports
  rw [Stub.before_append earlier] at calm
  have passed := (bench.passed_start host).recoverAll front
  obtain ⟨foreign, imported⟩ := passed.exists_foreign
  obtain ⟨report, splices, among, alone⟩ :=
    passed.recoverMethod_alone imported (undisturbed_twin calm imported) apart.depth
  rw [recoverAll_append, recoverAll_cons]
  constructor
  · rw [← report]
    simp
  · rw [get?_replaced_recoverAll later, among, alone]
    exact Table.get?_insertAll_congr (get?_replaced_recoverAll earlier _) splices

/-- Which failure is noticed makes no difference once all is prepared. -/
theorem recoverAll_noticed (bench : Workbench) (noticed : Nat) (session : Session)
    (stubs : List Stub) :
    recoverAll { bench with settings := { bench.settings with noticed } } session stubs =
      bench.recoverAll session stubs := by
  induction stubs generalizing session with
  | nil => rfl
  | cons stub rest ih =>
    have same : recoverMethod { bench with settings := { bench.settings with noticed } } session
        stub = bench.recoverMethod session stub := rfl
    rw [recoverAll_cons, recoverAll_cons, same, ih]

end Workbench

theorem Report.method?_eq_some_iff {report : Report} {token : Token} {method : MethodReport}
    (distinct : (report.methods.map MethodReport.token).Nodup) :
    report.method? token = some method ↔ method ∈ report.methods ∧ method.token = token := by
  constructor
  · intro found
    exact ⟨List.mem_of_find?_eq_some found, by simpa using List.find?_some found⟩
  · rintro ⟨member, rfl⟩
    cases found : report.method? method.token with
    | none =>
      have differs := List.find?_eq_none.mp found method member
      simp at differs
    | some other =>
      have same : other.token = method.token := by simpa using List.find?_some found
      rw [List.inj_on_of_nodup_map distinct (List.mem_of_find?_eq_some found) member same]

/-- What a run comes to for a method: the report on it and the body written back. A run that fails in
its preparation comes to nothing. -/
def outcomeFor (token : Token) (run : Except Error (Report × Host)) :
    Option (Option MethodReport × Option MethodBody) :=
  run.toOption.map fun (report, after) => (report.method? token, after.replaced.get? token)

section Outcomes

variable {settings : Settings} {host : Host} {interpreter : Interpreter} {bench : Workbench}

theorem toOption_recoverModule_noticed (settings : Settings) (host : Host)
    (interpreter : Interpreter) (noticed : Nat) :
    (recoverModule { settings with noticed } host interpreter).toOption =
      (recoverModule settings host interpreter).toOption := by
  rw [recoverModule, recoverModule, toOption_bind, toOption_bind,
    Workbench.toOption_prepare_noticed, Option.bind_map]
  simp only [Function.comp_def, Workbench.recoverAll_noticed]

/-- What a run comes to for a method that the others do not get in the way of is what the method
comes to alone. -/
theorem outcomeFor_recoverModule_of_mem {stub : Stub}
    (prepared : Workbench.prepare settings host interpreter = .ok bench)
    (distinct : (interpreter.methods.map Stub.token).Nodup) (member : stub ∈ interpreter.methods)
    (apart : bench.Apart host interpreter.methods stub) :
    outcomeFor stub.token (recoverModule settings host interpreter) =
      some (some (bench.alone host stub).1,
        (bench.alone host stub).2.host.replaced.get? stub.token) := by
  obtain ⟨reported, replaced⟩ := apart.recoverAll distinct member
  obtain ⟨tokens, _⟩ := bench.recoverAll_reports { host } interpreter.methods
  rw [recoverModule, prepared]
  refine congrArg some (Prod.ext ((Report.method?_eq_some_iff ?_).mpr ⟨reported, ?_⟩) replaced)
  · rw [tokens]
    exact distinct
  · exact (bench.recoverMethod_reports { host } stub).1

theorem outcomeFor_recoverModule_of_notMem {token : Token}
    (prepared : Workbench.prepare settings host interpreter = .ok bench)
    (absent : token ∉ interpreter.methods.map Stub.token) :
    outcomeFor token (recoverModule settings host interpreter) =
      some (none, host.replaced.get? token) := by
  obtain ⟨tokens, _⟩ := bench.recoverAll_reports { host } interpreter.methods
  rw [recoverModule, prepared]
  refine congrArg some (Prod.ext ?_ (Workbench.get?_replaced_recoverAll absent { host }))
  rw [← tokens] at absent
  refine List.find?_eq_none.mpr fun method member found => absent ?_
  have same : method.token = token := by simpa using found
  exact same ▸ List.mem_map_of_mem member

end Outcomes

/-- In every order of the methods, a run comes to the same for each of them. -/
def OrderFree (settings : Settings) (host : Host) (interpreter : Interpreter) : Prop :=
  ∀ stubs : List Stub, stubs.Perm interpreter.methods → ∀ token,
    outcomeFor token (recoverModule settings host { interpreter with methods := stubs }) =
      outcomeFor token (recoverModule settings host interpreter)

/-- In two orders a run comes to the same for each method that the others do not get in the way of,
whatever becomes of those. -/
theorem recoverModule_orderFree {settings : Settings} {host : Host} {interpreter : Interpreter}
    {stubs : List Stub} (distinct : (interpreter.methods.map Stub.token).Nodup)
    (perm : stubs.Perm interpreter.methods) {token : Token}
    (apart : ∀ bench, Workbench.prepare settings host interpreter = .ok bench →
      ∀ stub ∈ stubs, stub.token = token →
        bench.Apart host interpreter.methods stub ∧ bench.Apart host stubs stub) (noticed : Nat) :
    outcomeFor token
        (recoverModule { settings with noticed } host { interpreter with methods := stubs }) =
      outcomeFor token (recoverModule settings host interpreter) := by
  rw [outcomeFor, toOption_recoverModule_noticed, ← outcomeFor]
  have prepares : Workbench.prepare settings host { interpreter with methods := stubs } =
      Workbench.prepare settings host interpreter := rfl
  cases prepared : Workbench.prepare settings host interpreter with
  | error e =>
    rw [recoverModule, recoverModule, prepares, prepared]
    rfl
  | ok bench =>
    have distinct' : (stubs.map Stub.token).Nodup := (perm.map Stub.token).nodup_iff.mpr distinct
    by_cases known : token ∈ stubs.map Stub.token
    · obtain ⟨stub, member, rfl⟩ := List.mem_map.mp known
      obtain ⟨apart, apart'⟩ := apart bench prepared stub member rfl
      rw [outcomeFor_recoverModule_of_mem prepared distinct (perm.mem_iff.mp member) apart]
      exact outcomeFor_recoverModule_of_mem (prepares.trans prepared) distinct' member apart'
    · have unknown : token ∉ interpreter.methods.map Stub.token := fun member =>
        known ((perm.map Stub.token).mem_iff.mpr member)
      rw [outcomeFor_recoverModule_of_notMem prepared unknown]
      exact outcomeFor_recoverModule_of_notMem (prepares.trans prepared) known

namespace TwoMethods

/-- A module with two methods to recover and the handler of a call. -/
def host : Host :=
  let base : TypeSig := .ofRef (.top .local "System.Reflection" "MethodBase") false
  let invoke : MethodRef := ⟨.primitive .object, "invoke", { ret := .void }, []⟩
  (ThreeOutcomes.host.defineMethod ⟨.primitive .object, "handler", { ret := .void }, []⟩
    [{ opcode := .ldarg0 }, { opcode := .ldarg1 }, { opcode := .castclass, operand := .type base },
      { opcode := .ldcI40 }, { opcode := .call, operand := .method invoke }, { opcode := .ret }]).2

/-- The record of a static method `E::f` without parameters. -/
def methodRecord (name ret : UInt8) : Bytes :=
  [3, 0, 0, 0, 0, 5, 0, 0, 0, 1, name, 1, ret, 0, 0, 0, 0, 0, 0, 0, 0, 0, 0, 0]

/-- The record of a method without handlers that calls the method at a position. -/
def caller (position : UInt8) : Bytes :=
  ThreeOutcomes.header ++ [0, 0, 0, 0] ++ [6, 0, 0, 0] ++ [7, 0, position, 0, 0, 0]

/-- The type `void`, the type `E` at 5 and a type parameter at 22, a method `f` that returns the
parameter at 38, and methods `f` and `g` that return nothing at 62 and 86. -/
def records : Bytes :=
  [0, 1, 0, 0, 2] ++
    [1, 0, 0, 0, 0, 1, 69, 0, 0, 0, 0, 0, 0, 0, 0, 0, 0] ++
    [1, 0, 0, 0, 0, 0, 0, 0, 0, 0, 1, 0, 0, 0, 0, 0] ++
    methodRecord 102 22 ++ methodRecord 102 0 ++ methodRecord 103 0

/-- Two methods with one call each. -/
def calls (first second : UInt8) : Interpreter :=
  { ThreeOutcomes.interpreter with
    resolverStream := { data := records }
    methodStream := { data := caller first ++ caller second }
    handlers := [⟨7, 4, ⟨0x06000003⟩⟩]
    methods := [⟨⟨0x06000001⟩, "AAAAAAAAAAA="⟩, ⟨⟨0x06000002⟩, "IAAAAAAAAAA="⟩] }

/-- The record of a generic type with one argument. -/
def typeRecord (name argument : UInt8) : Bytes :=
  [1, 0, 0, 0, 0, 1, name, 1, 0, 0, 0, argument, 0, 0, 0, 0, 0, 0, 0, 0, 0]

/-- The record of a method without code whose types are at a position. -/
def typed (position : UInt8) : Bytes :=
  List.replicate 9 0 ++ [position, 0, 0, 0, position, 0, 0, 0, 0] ++ [0, 0, 0, 0] ++ [0, 0, 0, 0]

/-- A method with the type `B<void>`, and one with the type `C<B<void>>`. -/
def nested : Interpreter :=
  { ThreeOutcomes.interpreter with
    resolverStream := { data := [0, 1, 0, 0, 2] ++ typeRecord 66 0 ++ typeRecord 67 5 }
    methodStream := { data := typed 5 ++ typed 26 }
    methods := [⟨⟨0x06000001⟩, "AAAAAAAAAAA="⟩, ⟨⟨0x06000002⟩, "GgAAAAAAAAA="⟩] }

theorem not_orderFree_of_reverse {settings : Settings} {host : Host} {interpreter : Interpreter}
    (token : Token)
    (differs : outcomeFor token (recoverModule settings host
        { interpreter with methods := interpreter.methods.reverse }) ≠
      outcomeFor token (recoverModule settings host interpreter)) :
    ¬ OrderFree settings host interpreter := by
  intro free
  exact differs (free _ (List.reverse_perm _) token)

/-- The call of `f` in the second method takes the signature that was imported for the first one,
if that comes first. The second type is too deep, unless the type in it is known before. -/
theorem not_orderFree :
    (((calls 38 62).methods.map Stub.token).Nodup ∧ ¬ OrderFree {} host (calls 38 62)) ∧
      (nested.methods.map Stub.token).Nodup ∧ ¬ OrderFree { maxDepth := 1 } host nested :=
  ⟨⟨by decide +kernel, not_orderFree_of_reverse ⟨0x06000002⟩ (by decide +kernel)⟩,
    by decide +kernel, not_orderFree_of_reverse ⟨0x06000002⟩ (by decide +kernel)⟩

/-- Whether a run gets to its methods, and the others do not get in the way of one of them, in the
order given and in reverse. -/
def isApart (settings : Settings) (interpreter : Interpreter) (token : Token) : Bool :=
  (Workbench.prepare settings host interpreter).toOption.any fun bench =>
    interpreter.methods.all fun stub => decide (stub.token = token →
      bench.Apart host interpreter.methods stub ∧ bench.Apart host interpreter.methods.reverse stub)

theorem apart_of_isApart {settings : Settings} {interpreter : Interpreter} {token : Token}
    (isApart : isApart settings interpreter token = true) :
    ∀ bench, Workbench.prepare settings host interpreter = .ok bench →
      ∀ stub ∈ interpreter.methods.reverse, stub.token = token →
        bench.Apart host interpreter.methods stub ∧
          bench.Apart host interpreter.methods.reverse stub := by
  intro bench prepared stub member same
  rw [TwoMethods.isApart, prepared] at isApart
  have apart := List.all_eq_true.mp isApart stub (List.mem_reverse.mp member)
  exact of_decide_eq_true apart same

/-- With a call of `f` and one of `g` the second method comes to the same in both orders. So does the
method whose type is not too deep, though the other one does not. -/
theorem recoverModule_orderFree_reverse :
    (((calls 38 86).methods.map Stub.token).Nodup ∧
      isApart {} (calls 38 86) ⟨0x06000002⟩ = true ∧
      outcomeFor ⟨0x06000002⟩ (recoverModule { noticed := 1 } host
          { calls 38 86 with methods := (calls 38 86).methods.reverse }) =
        outcomeFor ⟨0x06000002⟩ (recoverModule {} host (calls 38 86))) ∧
    isApart { maxDepth := 1 } nested ⟨0x06000001⟩ = true ∧
      outcomeFor ⟨0x06000001⟩ (recoverModule { maxDepth := 1, noticed := 1 } host
          { nested with methods := nested.methods.reverse }) =
        outcomeFor ⟨0x06000001⟩ (recoverModule { maxDepth := 1 } host nested) := by
  have distinct : ((calls 38 86).methods.map Stub.token).Nodup := by decide +kernel
  have apart : isApart {} (calls 38 86) ⟨0x06000002⟩ = true := by decide +kernel
  have apart' : isApart { maxDepth := 1 } nested ⟨0x06000001⟩ = true := by decide +kernel
  refine ⟨⟨distinct, apart, ?_⟩, apart', ?_⟩
  · exact recoverModule_orderFree distinct (List.reverse_perm _) (apart_of_isApart apart) 1
  · have distinct' : (nested.methods.map Stub.token).Nodup := by decide +kernel
    exact recoverModule_orderFree distinct' (List.reverse_perm _) (apart_of_isApart apart') 1

end TwoMethods

end CilRecovery
