import CilRecovery.Proofs.Generics

/-!
References to methods. Whichever way the method of a record is found, the reference answers the
record, and it is imported unless its type is one of the module itself. The types of the record are
found without a change to the module. A method that is declared with generic parameters is found
under every instance of it.
-/
namespace CilRecovery

namespace Resolver

/-! ### Types leave the module alone -/

/-- A lookup that leaves the module alone if it finds a type. -/
def Quiet (lookup : Lookup) : Prop :=
  ∀ position session sig after,
    (lookup position).run.run session = (.ok (some (.type sig)), after) → after.host = session.host

section Types

variable {resolver : Resolver} {lookup : Lookup} {session after : Session}

theorem of_run_lift {result : Except Error α} {value : α}
    (ends : (lift result).run.run session = (.ok value, after)) :
    result = .ok value ∧ after = session := by
  cases result with
  | error e => cases ends
  | ok known =>
    cases ends
    exact ⟨rfl, rfl⟩

/-- A sequence that finds something, where nothing comes of nothing, finds something first. -/
theorem exists_of_run_bind_eq_some {first : ResolveM (Option α)}
    {next : Option α → ResolveM (Option β)} {result : β}
    (ends : (first >>= next).run.run session = (.ok (some result), after))
    (absent : next none = pure none) :
    ∃ value between, first.run.run session = (.ok (some value), between) ∧
      (next (some value)).run.run between = (.ok (some result), after) := by
  obtain ⟨found, between, now, rest⟩ := exists_of_run_bind_eq_ok ends
  cases found with
  | none =>
    rw [absent] at rest
    cases rest
  | some value => exact ⟨value, between, now, rest⟩

theorem run_of_typeAt {position : Int32} {sig : TypeSig}
    (found : (typeAt lookup position).run.run session = (.ok (some sig), after)) :
    (lookup position).run.run session = (.ok (some (.type sig)), after) := by
  obtain ⟨resolved, between, looked, rest⟩ := exists_of_run_bind_eq_some found rfl
  cases resolved <;> cases rest
  exact looked

theorem exists_of_typesAt_cons {position : Int32} {rest : List Int32} {sigs : List TypeSig}
    (found : (typesAt lookup (position :: rest)).run.run session = (.ok (some sigs), after)) :
    ∃ sig more between, sigs = sig :: more ∧
      (typeAt lookup position).run.run session = (.ok (some sig), between) ∧
      (typesAt lookup rest).run.run between = (.ok (some more), after) := by
  obtain ⟨sig, between, first, others⟩ := exists_of_run_bind_eq_some found rfl
  obtain ⟨more, _, others, same⟩ := exists_of_run_bind_eq_some others rfl
  cases same
  exact ⟨sig, more, between, rfl, first, others⟩

/-- A record that spells a type out asks for its name and its arguments. -/
theorem exists_of_typeDemand {record : TypeRecord} {demand : Demand} (spelled : record.param = none)
    (ends : (typeDemand lookup record).run.run session = (.ok (some demand), after)) :
    ∃ name args, demand = .type name args ∧
      (typesAt lookup record.args).run.run session = (.ok (some args), after) := by
  rw [typeDemand, spelled] at ends
  obtain ⟨name, between, parsed, rest⟩ := exists_of_run_bind_eq_ok ends
  obtain ⟨_, rfl⟩ := of_run_lift parsed
  obtain ⟨args, _, given, same⟩ := exists_of_run_bind_eq_some rest rfl
  cases same
  exact ⟨name, args, rfl, given⟩

/-- A field record asks for a field of the type in it. -/
theorem exists_of_fieldDemand {record : FieldRecord} {demand : Demand}
    (ends : (fieldDemand lookup record).run.run session = (.ok (some demand), after)) :
    ∃ declaring, demand = .field declaring record.name ∧
      (typeAt lookup record.declaring).run.run session = (.ok (some declaring), after) := by
  obtain ⟨declaring, _, declared, same⟩ := exists_of_run_bind_eq_some ends rfl
  cases same
  exact ⟨declaring, rfl, declared⟩

/-- What a method record asks for comes from the types in it. -/
theorem exists_of_methodDemand {record : MethodRecord} {demand : Demand}
    (ends : (methodDemand lookup record).run.run session = (.ok (some demand), after)) :
    ∃ declaring ret params args first second third,
      demand = .method ⟨declaring, record.name, record.isStatic, ret, params, args⟩ ∧
      (typeAt lookup record.declaring).run.run session = (.ok (some declaring), first) ∧
      (typeAt lookup record.ret).run.run first = (.ok (some ret), second) ∧
      (typesAt lookup record.params).run.run second = (.ok (some params), third) ∧
      (typesAt lookup record.args).run.run third = (.ok (some args), after) := by
  obtain ⟨declaring, first, declared, rest⟩ := exists_of_run_bind_eq_some ends rfl
  obtain ⟨ret, second, returned, rest⟩ := exists_of_run_bind_eq_some rest rfl
  obtain ⟨params, third, taken, rest⟩ := exists_of_run_bind_eq_some rest rfl
  obtain ⟨args, _, given, same⟩ := exists_of_run_bind_eq_some rest rfl
  cases same
  exact ⟨declaring, ret, params, args, first, second, third, rfl, declared, returned, taken, given⟩

/-- A call asks for a method that is found already. -/
theorem exists_of_callDemand {record : CallRecord} {demand : Demand}
    (ends : (Resolver.demand lookup (.packedCall record)).run.run session =
      (.ok (some demand), after)) : ∃ method, demand = .resolved (.method method) := by
  obtain ⟨call, _, _, same⟩ := exists_of_run_bind_eq_some ends rfl
  cases same
  exact ⟨call.1, rfl⟩

/-- What a record without a usable hint stands for is what it asks for. -/
theorem exists_of_resolveRecord {left : Nat} {record : OperandRecord} {resolved : Resolved}
    (unhinted : hinted? session.host record = none)
    (ends : (resolver.resolveRecord left lookup record).run.run session =
      (.ok (some resolved), after)) :
    ∃ demand between host, (Resolver.demand lookup record).run.run session =
        (.ok (some demand), between) ∧
      find resolver left between.host demand = .ok (some resolved, host) ∧
      after = { between with host } := by
  rw [run_resolveRecord unhinted] at ends
  obtain ⟨demand, between, demands, meets⟩ := exists_of_run_bind_eq_some ends rfl
  cases finds : find resolver left between.host demand with
  | error e =>
    rw [run_meet_error finds] at meets
    cases meets
  | ok pair =>
    obtain ⟨found, host⟩ := pair
    rw [run_meet_ok finds] at meets
    cases meets
    exact ⟨demand, between, host, demands, finds, rfl⟩

theorem Quiet.typeAt (quiet : Quiet lookup) {position : Int32} {sig : TypeSig}
    (found : (Resolver.typeAt lookup position).run.run session = (.ok (some sig), after)) :
    after.host = session.host :=
  quiet position session sig after (run_of_typeAt found)

theorem Quiet.typesAt (quiet : Quiet lookup) {positions : List Int32} {sigs : List TypeSig}
    (found : (Resolver.typesAt lookup positions).run.run session = (.ok (some sigs), after)) :
    after.host = session.host := by
  induction positions generalizing session sigs with
  | nil =>
    cases found
    rfl
  | cons position rest ih =>
    obtain ⟨sig, more, between, _, first, others⟩ := exists_of_typesAt_cons found
    exact (ih others).trans (quiet.typeAt first)

theorem Quiet.methodDemand (quiet : Quiet lookup) {record : MethodRecord} {demand : Demand}
    (ends : (Resolver.methodDemand lookup record).run.run session = (.ok (some demand), after)) :
    after.host = session.host := by
  obtain ⟨_, _, _, _, _, _, _, _, declared, returned, taken, given⟩ := exists_of_methodDemand ends
  rw [quiet.typesAt given, quiet.typesAt taken, quiet.typeAt returned, quiet.typeAt declared]

/-- What a record asks for is found out without a change to the module, except for a call, which
asks for a method that is found already. -/
theorem Quiet.demand (quiet : Quiet lookup) {record : OperandRecord} {demand : Demand}
    (ends : (Resolver.demand lookup record).run.run session = (.ok (some demand), after)) :
    after.host = session.host ∨ ∃ method, demand = .resolved (.method method) := by
  cases record with
  | token token =>
    cases ends
    exact .inl rfl
  | userString text =>
    cases ends
    exact .inl rfl
  | method record => exact .inl (quiet.methodDemand ends)
  | field record =>
    obtain ⟨_, _, declared⟩ := exists_of_fieldDemand ends
    exact .inl (quiet.typeAt declared)
  | packedCall record => exact .inr (exists_of_callDemand ends)
  | type record =>
    left
    cases isParam : record.param with
    | some param =>
      rw [Resolver.demand, typeDemand, isParam] at ends
      cases ends
      rfl
    | none =>
      obtain ⟨name, args, _, given⟩ := exists_of_typeDemand isParam ends
      exact quiet.typesAt given

theorem host_of_find_type {left : Nat} {host host' : Host} {demand : Demand} {sig : TypeSig}
    (finds : find resolver left host demand = .ok (some (.type sig), host')) : host' = host := by
  cases demand with
  | resolved found =>
    cases finds
    rfl
  | token token =>
    rw [find] at finds
    exact (Prod.mk.inj (Except.ok.inj finds)).2.symm
  | type name args =>
    obtain ⟨_, _, same⟩ := exists_of_bind_eq_ok finds
    cases same
    rfl
  | field declaring name =>
    rw [find_field] at finds
    have none := (Prod.mk.inj (Except.ok.inj finds)).1
    obtain ⟨field, _, same⟩ := Option.map_eq_some_iff.mp none
    cases same
  | method query =>
    rw [find_method] at finds
    cases finds

theorem Quiet.resolveRecord (quiet : Quiet lookup) {left : Nat} {record : OperandRecord}
    {sig : TypeSig}
    (ends : (resolver.resolveRecord left lookup record).run.run session =
      (.ok (some (.type sig)), after)) : after.host = session.host := by
  cases hinted : hinted? session.host record with
  | some resolved =>
    rw [run_resolveRecord_hinted hinted] at ends
    cases ends
    rfl
  | none =>
    obtain ⟨demand, between, host, demands, finds, rfl⟩ := exists_of_resolveRecord hinted ends
    rcases quiet.demand demands with kept | ⟨method, rfl⟩
    · exact (host_of_find_type finds).trans kept
    · cases finds

/-- A position that is resolved is absent, or it was resolved before, or its record is resolved. -/
theorem of_resolveWithin {left : Nat} {position : Int32} {value : Option Resolved}
    (ends : (resolver.resolveWithin (left + 1) position).run.run session = (.ok value, after)) :
    (position < 0 ∧ value = none ∧ after = session) ∨
    (¬ position < 0 ∧ session.memo.get? position.toInt.toNat = some value ∧ after = session) ∨
    (¬ position < 0 ∧ session.memo.get? position.toInt.toNat = none ∧
      ∃ record between, resolver.readRecord position.toInt.toNat = .ok record ∧
        (resolver.resolveRecord (left + 1) (resolver.resolveWithin left) record).run.run session =
          (.ok value, between) ∧
        after = between.note position.toInt.toNat value) := by
  by_cases negative : position < 0
  · rw [run_resolveWithin_negative negative] at ends
    cases ends
    exact .inl ⟨negative, rfl, rfl⟩
  right
  cases known : session.memo.get? position.toInt.toNat with
  | some noted =>
    rw [run_resolveWithin_known negative known] at ends
    cases ends
    exact .inl ⟨negative, rfl, rfl⟩
  | none =>
    cases reads : resolver.readRecord position.toInt.toNat with
    | error e =>
      rw [run_resolveWithin_unreadable negative known reads] at ends
      cases ends
    | ok record =>
      cases outcome : (resolver.resolveRecord (left + 1) (resolver.resolveWithin left)
          record).run.run session with
      | mk result between =>
        cases result with
        | error e =>
          rw [run_resolveWithin_error negative known reads outcome] at ends
          cases ends
        | ok found =>
          rw [run_resolveWithin_ok negative known reads outcome] at ends
          cases ends
          exact .inr ⟨negative, rfl, record, between, rfl, outcome, rfl⟩

/-- To find a type at a position, nothing is imported. -/
theorem quiet_resolveWithin (resolver : Resolver) (left : Nat) :
    Quiet (resolver.resolveWithin left) := by
  induction left with
  | zero =>
    intro position session sig after found
    cases found
  | succ left ih =>
    intro position session sig after found
    rcases of_resolveWithin found with
      ⟨_, absent, _⟩ | ⟨_, _, rfl⟩ | ⟨_, _, record, between, _, ends, rfl⟩
    · cases absent
    · rfl
    · have kept : between.host = session.host := ih.resolveRecord ends
      exact kept

end Types

end Resolver

/-! ### References that answer a record -/

namespace MethodQuery

/-- A reference to what a record describes: of the type, by the name and with the arguments that are
recorded, and with a signature that fits. -/
structure Answers (query : MethodQuery) (method : MethodRef) : Prop where
  declaring : method.declaring = query.declaring
  name : method.name = query.name
  args : method.genericArgs = query.args
  hasThis : method.sig.hasThis = !query.isStatic
  generic : method.sig.genericParams = query.args.length
  ret : method.sig.ret.compatible query.ret = true
  params : query.paramsMatch method.sig.params = true

theorem answers_resolve (query : MethodQuery) (host : Host) :
    query.Answers (query.resolve host).1 := by
  have fits := query.answeredBy_resolve host
  simp only [answeredBy, accepts, Bool.and_eq_true, beq_iff_eq, bne_iff_ne, ← Bool.eq_not_iff] at fits
  obtain ⟨_, ⟨⟨⟨name, hasThis⟩, generic⟩, ret⟩, params⟩ := fits
  exact ⟨rfl, name, rfl, hasThis, generic, ret, params⟩

/-- What a query ends in is imported, unless its type is one of the module. -/
theorem mem_importedMethods_resolve (query : MethodQuery) (host : Host) :
    (query.resolve host).1 ∈ (query.resolve host).2.importedMethods ↔
      (query.resolve host).1 ∈ host.importedMethods ∨ query.isInternal host = false := by
  cases isInternal : query.isInternal host with
  | true =>
    rw [query.resolve_internal isInternal]
    simp
  | false =>
    rw [query.snd_resolve_external isInternal]
    simp [Host.importMethod, Host.mem_addNew]

end MethodQuery

namespace Resolver

section Methods

variable {resolver : Resolver} {session between : Session} {record : MethodRecord}
  {query : MethodQuery} {position : UInt32}

/-- A method record is resolved to what its query ends in, and what is imported is imported for the
query. -/
theorem exists_run_resolveMethod (sound : resolver.Sound session)
    (low : position.toNat < 0x80000000)
    (reads : resolver.readRecord position.toNat = .ok (.method record))
    (unhinted : hinted? session.host (.method record) = none)
    (recorded : resolver.Recorded session record query) :
    ∃ after, (resolver.resolveMethod position).run.run session =
        (.ok (some (query.resolve session.host).1), after) ∧
      after.host = (query.resolve session.host).2 := by
  obtain ⟨between, described⟩ := recorded.exists_run_methodDemand
  have kept := (resolver.quiet_resolveWithin _).methodDemand described
  have method := fst_run_resolveMethod sound low reads unhinted described
  rw [kept] at method
  refine ⟨_, Prod.ext method rfl, ?_⟩
  have proper := not_toInt32_neg low
  have key : position.toInt32.toInt.toNat = position.toNat := by
    rw [toInt_toInt32 low, Int.toNat_natCast]
  cases known : session.memo.get? position.toNat with
  | some value =>
    have there := (eq_of_known sound known reads unhinted described).2
    rw [kept] at there
    rw [← key] at known
    rw [resolveMethod, run_methodAt (run_resolveWithin_known proper known), there]
  | none =>
    rw [← key] at known reads
    have ends := run_resolveWithin_ok proper known reads
      (run_resolveRecord_method unhinted described)
    rw [resolveMethod, run_methodAt ends, ← kept]
    rfl

end Methods

/-- Whichever way it is found, what a method record is resolved to answers the record. Of a record
without a usable hint whose types are found, whatever was asked before, the reference has the
recorded declaring type, name and generic arguments and a signature that fits, and it is among the
imports afterwards exactly if it was there before or its type is not one of the module. -/
theorem resolveMethod_answers {resolver : Resolver} {host : Host} {requests : List Request}
    {session : Session} {position : UInt32} {record : MethodRecord} {query : MethodQuery}
    (reached : (resolver.answerAll { host } requests).2 = session)
    (low : position.toNat < 0x80000000)
    (reads : resolver.readRecord position.toNat = .ok (.method record))
    (unhinted : hinted? host (.method record) = none)
    (recorded : resolver.Recorded session record query) :
    ∃ method after,
      (resolver.resolveMethod position).run.run session = (.ok (some method), after) ∧
      query.Answers method ∧
      (method ∈ after.host.importedMethods ↔
        method ∈ session.host.importedMethods ∨ query.isInternal host = false) := by
  subst reached
  obtain ⟨sound, since⟩ := resolver.keeps_answerAll { host } requests (resolver.sound_fresh host)
  have unhinted' := (hinted?_of_follows since.host (.method record)).trans unhinted
  obtain ⟨after, ends, host_after⟩ := exists_run_resolveMethod sound low reads unhinted' recorded
  refine ⟨_, after, ends, query.answers_resolve _, ?_⟩
  rw [host_after, query.mem_importedMethods_resolve, query.isInternal_of_follows since.host]

namespace GenericCall

def record : MethodRecord := ⟨5, "f", true, false, 0, [], [0], none⟩

def query : MethodQuery := ⟨typeE, "f", true, .void, [], [.void]⟩

/-- A reference to `E::f` with another argument, which returns a parameter of the type. -/
def imported : MethodRef := ⟨typeE, "f", { ret := .typeParam 3, genericParams := 1 }, [.i4]⟩

/-- The signature comes from the import, and the reference is imported for its own argument. -/
theorem resolveMethod_answers_imported :
    resolver.Recorded { host := host.importMethod imported } record query ∧
    query.Answers { imported with genericArgs := [.void] } ∧
    { imported with genericArgs := [.void] } ∉ (host.importMethod imported).importedMethods ∧
    { imported with genericArgs := [.void] } ∈
      ((resolver.resolveMethod 22).run.run
        { host := host.importMethod imported }).2.host.importedMethods := by
  have recorded : resolver.Recorded { host := host.importMethod imported } record query :=
    ⟨rfl, rfl, by decide +kernel⟩
  have reads : resolver.readRecord (22 : UInt32).toNat = .ok (.method record) := by decide +kernel
  have found : ((resolver.resolveMethod 22).run.run { host := host.importMethod imported }).1 =
      .ok (some { imported with genericArgs := [.void] }) := by decide +kernel
  have reached : (resolver.answerAll { host := host.importMethod imported } []).2 =
    { host := host.importMethod imported } := rfl
  obtain ⟨method, after, ends, answers, there⟩ :=
    resolveMethod_answers reached (by decide) reads rfl recorded
  rw [ends] at found
  cases found
  refine ⟨recorded, answers, by decide +kernel, ?_⟩
  rw [ends]
  exact there.mpr (.inr (by decide +kernel))

end GenericCall

end Resolver

/-! ### Instances of declared methods -/

namespace TypeSig

theorem Agrees.symm {a b : TypeSig} (agrees : a.Agrees b) : b.Agrees a := by
  induction agrees with
  | left wild => exact .right wild
  | right wild => exact .left wild
  | primitive kind => exact .primitive kind
  | named same => exact .named same.symm
  | vector _ ih => exact .vector ih
  | array _ rank ih => exact .array ih rank
  | pointer _ ih => exact .pointer ih
  | byRef _ ih => exact .byRef ih

/-- A type agrees with all its instances. -/
theorem agrees_instantiate (assign : GenericParam → TypeSig) (sig : TypeSig) :
    sig.Agrees (sig.instantiate assign) := by
  induction sig using inductionOn with
  | primitive kind => exact .primitive kind
  | named isValue ref => exact .named rfl
  | typeParam index => exact .left rfl
  | methodParam index => exact .left rfl
  | inst generic args _ _ => exact .left rfl
  | vector element ih => exact .vector ih
  | array element rank ih => exact .array ih rank
  | pointer target ih => exact .pointer ih
  | byRef target ih => exact .byRef ih

end TypeSig

namespace MethodQuery

variable {query : MethodQuery} {method : MethodDef} {assign : GenericParam → TypeSig}

/-- A record of a declared method with types put in for its generic parameters. The record of an
instance method may list the declaring type before the parameters. -/
structure Instantiates (query : MethodQuery) (method : MethodDef)
    (assign : GenericParam → TypeSig) : Prop where
  name : query.name = method.name
  isStatic : query.isStatic = !method.sig.hasThis
  generic : query.args.length = method.sig.genericParams
  ret : query.ret = method.sig.ret.instantiate assign
  params :
    query.params = TypeSig.instantiateAll assign method.sig.params ∨
      method.sig.hasThis = true ∧
        query.params = query.declaring :: TypeSig.instantiateAll assign method.sig.params

/-- A declared method fits every record of an instance of it. -/
theorem Instantiates.fits (is : query.Instantiates method assign) : query.Fits method := by
  have params : List.Forall₂ TypeSig.Agrees (TypeSig.instantiateAll assign method.sig.params)
      method.sig.params := by
    rw [TypeSig.instantiateAll_eq, List.forall₂_map_left_iff]
    exact List.forall₂_same.mpr fun param _ => (param.agrees_instantiate assign).symm
  refine ⟨is.name.symm, ?_, is.generic.symm, ?_, ?_⟩
  · rw [is.isStatic, Bool.not_not]
  · rw [is.ret]
    exact method.sig.ret.agrees_instantiate assign
  · rcases is.params with same | ⟨hasThis, same⟩
    · left
      rw [same]
      exact params
    · right
      refine ⟨by rw [is.isStatic, hasThis, Bool.not_true], _, _, same, .refl _, params⟩

end MethodQuery

namespace Resolver

/-- A method that a type of the module declares with generic parameters is found under all its
instances. A record without a usable hint that is an instance of the method is resolved, whatever
was asked before, to the signature of a method which the type declares and which fits, and the
module stays as it is. -/
theorem resolveMethod_instantiated {resolver : Resolver} {host : Host} {requests : List Request}
    {session : Session} {position : UInt32} {record : MethodRecord} {query : MethodQuery}
    {definition : TypeDef} {method : MethodDef} {assign : GenericParam → TypeSig}
    (reached : (resolver.answerAll { host } requests).2 = session)
    (low : position.toNat < 0x80000000)
    (reads : resolver.readRecord position.toNat = .ok (.method record))
    (unhinted : hinted? host (.method record) = none)
    (recorded : resolver.Recorded session record query)
    (defined : query.definition? host = some definition)
    (isInternal : definition.isExternal = false) (declared : method ∈ definition.methods)
    (is : query.Instantiates method assign) :
    ∃ found ∈ definition.methods, query.Fits found ∧
      query.findDeclared? definition = some found.sig ∧
      ∃ after, (resolver.resolveMethod position).run.run session =
          (.ok (some ⟨query.declaring, query.name, found.sig, query.args⟩), after) ∧
        after.host = session.host := by
  subst reached
  obtain ⟨sound, since⟩ := resolver.keeps_answerAll { host } requests (resolver.sound_fresh host)
  have unhinted' := (hinted?_of_follows since.host (.method record)).trans unhinted
  have defined' := (query.definition?_of_follows since.host).trans defined
  have isInternal' : query.isInternal (resolver.answerAll { host } requests).2.host = true := by
    simp [MethodQuery.isInternal, defined', isInternal]
  obtain ⟨sig, first⟩ := Option.isSome_iff_exists.mp (query.isSome_findDeclared? declared is.fits)
  obtain ⟨index, found, stands, rfl, ⟨_, stands', fits⟩, _⟩ :=
    query.exists_isLeast_of_findDeclared? first
  cases stands.symm.trans stands'
  obtain ⟨after, ends, kept⟩ := exists_run_resolveMethod sound low reads unhinted' recorded
  rw [query.resolve_internal isInternal', defined', Option.bind_some, first] at ends kept
  exact ⟨found, List.mem_of_getElem? stands, fits, first, after, ends, kept⟩

namespace GenericInstance

def typeA : TypeSig := .named false (.top .local "" "A")

def typeL (arg : TypeSig) : TypeSig := .inst (.named false (.top .local "" "L")) [arg]

/-- An instance method of `L` that takes an element and returns a vector of its own argument. -/
def put : MethodDef :=
  ⟨⟨0x06000002⟩, "put",
    { hasThis := true
      ret := .vector (.methodParam 0)
      params := [.typeParam 0]
      genericParams := 1 }⟩

def definition : TypeDef where
  ref := .top .local "" "L"
  methods := [⟨⟨0x06000001⟩, "put", { ret := .void, params := [.typeParam 0] }⟩, put]

def host : Host := (Host.addType { name := "module" } definition).2

/-- The types `A`, `L<A>` and `A[]`, and the method `put` of `L<A>` with the argument `A`, which
lists its instance, at 57. -/
def records : Bytes :=
  [1, 0, 0, 0, 0, 1, 65, 0, 0, 0, 0, 0, 0, 0, 0, 0, 0] ++
    [1, 0, 0, 0, 0, 1, 76, 1, 0, 0, 0, 0, 0, 0, 0, 0, 0, 0, 0, 0, 0] ++
    [1, 0, 0, 0, 0, 3, 65, 91, 93, 0, 0, 0, 0, 0, 0, 0, 0, 0, 0] ++
    [3, 0, 0, 0, 0, 17, 0, 0, 0, 3, 112, 117, 116, 0, 38, 0, 0, 0, 2, 0, 0, 0, 17, 0, 0, 0, 0, 0, 0,
      0, 1, 0, 0, 0, 0, 0, 0, 0]

def resolver : Resolver := { stream := { base := .memory records } }

def record : MethodRecord := ⟨17, "put", false, false, 38, [17, 0], [0], none⟩

def query : MethodQuery :=
  ⟨typeL typeA, "put", false, .vector typeA, [typeL typeA, typeA], [typeA]⟩

theorem resolveMethod_instantiated_put :
    resolver.Recorded { host } record query ∧ query.Instantiates put (fun _ => typeA) ∧
    ∃ found ∈ definition.methods, query.Fits found ∧
      query.findDeclared? definition = some found.sig ∧
      ∃ after, (resolver.resolveMethod 57).run.run { host } =
          (.ok (some ⟨typeL typeA, "put", found.sig, [typeA]⟩), after) ∧
        after.host = host := by
  have recorded : resolver.Recorded { host } record query := ⟨rfl, rfl, by decide +kernel⟩
  have reads : resolver.readRecord (57 : UInt32).toNat = .ok (.method record) := by decide +kernel
  have defined : query.definition? host = some definition := by decide +kernel
  have is : query.Instantiates put fun _ => typeA := ⟨rfl, rfl, rfl, rfl, .inr ⟨rfl, rfl⟩⟩
  have reached : (resolver.answerAll { host } []).2 = { host } := rfl
  exact ⟨recorded, is, resolveMethod_instantiated reached (by decide) reads rfl recorded defined rfl
    (by decide) is⟩

end GenericInstance

end Resolver

end CilRecovery
