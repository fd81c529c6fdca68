import Mathlib.Order.Bounds.Basic
import CilRecovery.Proofs.Stability

/-!
Overloads. A method record is met by the first declared method that fits it, and types fit each
other up to wildcards, so a method that is declared earlier may stand in for the one that the record
spells out. Which of them is found does not depend on what was resolved before.
-/
namespace CilRecovery

/-! ### Types that agree -/

theorem TypeRef.sameName_iff (a b : TypeRef) :
    a.sameName b = true ↔ a.withScope .local = b.withScope .local := by
  induction a generalizing b with
  | top scope space name => cases b <;> simp [sameName, withScope]
  | nested outer scope space name ih =>
    cases b with
    | top _ _ _ => simp [sameName, withScope]
    | nested outer' _ _ _ =>
      simp only [sameName, withScope, Bool.and_eq_true, beq_iff_eq, ih, nested.injEq, true_and]
      tauto

namespace TypeSig

/-- Agreement of types: a wildcard agrees with everything, and named types agree by their names,
wherever they are defined and whether they are classes or value types. -/
inductive Agrees : TypeSig → TypeSig → Prop where
  | left {a b : TypeSig} (wild : a.isWildcard = true) : Agrees a b
  | right {a b : TypeSig} (wild : b.isWildcard = true) : Agrees a b
  | primitive (kind : Primitive) : Agrees (primitive kind) (primitive kind)
  | named {isValue isValue' : Bool} {ref ref' : TypeRef}
    (same : ref.withScope .local = ref'.withScope .local) :
    Agrees (named isValue ref) (named isValue' ref')
  | vector {a b : TypeSig} (elements : Agrees a b) : Agrees (vector a) (vector b)
  | array {a b : TypeSig} (elements : Agrees a b) (rank : Nat) :
    Agrees (array a rank) (array b rank)
  | pointer {a b : TypeSig} (targets : Agrees a b) : Agrees (pointer a) (pointer b)
  | byRef {a b : TypeSig} (targets : Agrees a b) : Agrees (byRef a) (byRef b)

@[refl]
theorem Agrees.refl (sig : TypeSig) : Agrees sig sig := by
  cases sig with
  | primitive kind => exact .primitive kind
  | named isValue ref => exact .named rfl
  | vector element => exact .vector (.refl element)
  | array element rank => exact .array (.refl element) rank
  | pointer target => exact .pointer (.refl target)
  | byRef target => exact .byRef (.refl target)
  | _ => exact .left rfl

theorem compatible_of_agrees {a b : TypeSig} (agrees : a.Agrees b) : a.compatible b = true := by
  induction agrees with
  | left wild => exact compatible_of_isWildcard_left wild
  | right wild => exact compatible_of_isWildcard_right wild
  | primitive kind => simp [compatible, isWildcard]
  | named same => simpa [compatible, isWildcard] using (TypeRef.sameName_iff _ _).mpr same
  | vector _ ih => simpa [compatible, isWildcard] using ih
  | array _ rank ih => simpa [compatible, isWildcard] using ih
  | pointer _ ih => simpa [compatible, isWildcard] using ih
  | byRef _ ih => simpa [compatible, isWildcard] using ih

theorem agrees_of_compatible {a b : TypeSig} (same : a.compatible b = true) : a.Agrees b := by
  fun_induction compatible a b with
  | case1 a b wild =>
    rcases Bool.or_eq_true_iff.mp wild with wild | wild
    · exact .left wild
    · exact .right wild
  | case2 a b _ ih => exact .vector (ih same)
  | case3 a b _ ih => exact .pointer (ih same)
  | case4 a b _ ih => exact .byRef (ih same)
  | case5 a m b n _ ih =>
    obtain ⟨ranks, elements⟩ := Bool.and_eq_true_iff.mp same
    cases beq_iff_eq.mp ranks
    exact .array (ih elements) _
  | case6 _ a _ b => exact .named ((TypeRef.sameName_iff a b).mp same)
  | case7 a b =>
    cases beq_iff_eq.mp same
    exact .primitive _
  | case8 => cases same

theorem compatible_iff {a b : TypeSig} : a.compatible b = true ↔ a.Agrees b :=
  ⟨agrees_of_compatible, compatible_of_agrees⟩

theorem forall₂_agrees_iff {as bs : List TypeSig} :
    List.Forall₂ Agrees as bs ↔
      as.length = bs.length ∧ (List.zipWith compatible as bs).all id = true := by
  induction as generalizing bs with
  | nil => cases bs <;> simp
  | cons a as ih =>
    cases bs with
    | nil => simp
    | cons b bs => simp [ih, compatible_iff]; tauto

end TypeSig

/-! ### Methods that fit a record -/

namespace MethodQuery

/-- The signature that a record spells out. -/
def signature (query : MethodQuery) : MethodSig :=
  { hasThis := !query.isStatic
    ret := query.ret
    params := query.params
    genericParams := query.args.length }

/-- A method that is just what a record spells out. -/
def Describes (query : MethodQuery) (method : MethodDef) : Prop :=
  method.name = query.name ∧ method.sig = query.signature

/-- The recorded parameters agree with declared ones. The record of an instance method may have the
instance before them. -/
def ParamsAgree (query : MethodQuery) (declared : List TypeSig) : Prop :=
  List.Forall₂ TypeSig.Agrees query.params declared ∨
    query.isStatic = false ∧ ∃ this rest, query.params = this :: rest ∧
      this.Agrees query.declaring ∧ List.Forall₂ TypeSig.Agrees rest declared

/-- A method that may be meant by a record: its types agree with the recorded ones. -/
structure Fits (query : MethodQuery) (method : MethodDef) : Prop where
  name : method.name = query.name
  hasThis : method.sig.hasThis = !query.isStatic
  generic : method.sig.genericParams = query.args.length
  ret : method.sig.ret.Agrees query.ret
  params : query.ParamsAgree method.sig.params

variable {query : MethodQuery}

instance (method : MethodDef) : Decidable (query.Describes method) :=
  inferInstanceAs (Decidable (_ ∧ _))

theorem Describes.fits {method : MethodDef} (is : query.Describes method) : query.Fits method := by
  obtain ⟨name, sig⟩ := is
  refine ⟨name, ?_, ?_, ?_, .inl ?_⟩ <;> rw [sig]
  · rfl
  · rfl
  · exact .refl _
  · exact List.forall₂_same.mpr fun param _ => .refl param

theorem paramsMatch_iff (declared : List TypeSig) :
    query.paramsMatch declared = true ↔ query.ParamsAgree declared := by
  have plain : query.paramsMatch declared = true ↔
      List.Forall₂ TypeSig.Agrees (query.explicitParams declared.length) declared := by
    rw [paramsMatch, TypeSig.forall₂_agrees_iff, Bool.and_eq_true, beq_iff_eq]
  rw [plain, explicitParams, ParamsAgree]
  cases query.params with
  | nil => simp
  | cons first rest =>
    dsimp only
    split
    · rename_i skipped
      simp only [Bool.and_eq_true, Bool.not_eq_true', beq_iff_eq, TypeSig.compatible_iff] at skipped
      constructor
      · exact fun agree => .inr ⟨skipped.1.1, first, rest, rfl, skipped.2, agree⟩
      · rintro (agree | ⟨_, _, _, same, _, agree⟩)
        -- With the instance there is one parameter too many.
        · have := agree.length_eq
          simp [skipped.1.2] at this
        · cases same
          exact agree
    · rename_i kept
      simp only [Bool.and_eq_true, Bool.not_eq_true', beq_iff_eq, TypeSig.compatible_iff] at kept
      constructor
      · exact .inl
      · rintro (agree | ⟨isInstance, _, _, same, this, agree⟩)
        · exact agree
        · cases same
          exact absurd ⟨⟨isInstance, agree.length_eq⟩, this⟩ kept

theorem accepts_iff (method : MethodDef) :
    query.accepts method.name method.sig = true ↔ query.Fits method := by
  simp only [accepts, Bool.and_eq_true, beq_iff_eq, bne_iff_ne, paramsMatch_iff,
    TypeSig.compatible_iff, ← Bool.eq_not_iff]
  constructor
  · rintro ⟨⟨⟨⟨name, hasThis⟩, generic⟩, ret⟩, params⟩
    exact ⟨name, hasThis, generic, ret, params⟩
  · rintro ⟨name, hasThis, generic, ret, params⟩
    exact ⟨⟨⟨⟨name, hasThis⟩, generic⟩, ret⟩, params⟩

instance (method : MethodDef) : Decidable (query.Fits method) :=
  decidable_of_iff _ (accepts_iff method)

end MethodQuery

/-- Where in a type definition the methods of some kind stand. -/
def TypeDef.indices (definition : TypeDef) (is : MethodDef → Prop) : Set Nat :=
  { index | ∃ method, definition.methods[index]? = some method ∧ is method }

namespace MethodQuery

variable {query : MethodQuery} {definition : TypeDef}

/-- A search among the declared methods ends at the first that fits. -/
theorem exists_isLeast_of_findDeclared? {sig : MethodSig}
    (found : query.findDeclared? definition = some sig) :
    ∃ index method, definition.methods[index]? = some method ∧ method.sig = sig ∧
      IsLeast (definition.indices query.Fits) index := by
  obtain ⟨method, first, rfl⟩ := Option.map_eq_some_iff.mp found
  obtain ⟨fits, index, inside, rfl, earlier⟩ := List.find?_eq_some_iff_getElem.mp first
  have stands := List.getElem?_eq_getElem inside
  refine ⟨index, _, stands, rfl, ⟨_, stands, (accepts_iff _).mp fits⟩, ?_⟩
  rintro other ⟨method, there, fits'⟩
  by_contra before
  have passed := earlier other (by omega)
  obtain ⟨_, rfl⟩ := List.getElem?_eq_some_iff.mp there
  rw [(accepts_iff _).mpr fits'] at passed
  cases passed

/-- A method that fits is found if there is one. -/
theorem isSome_findDeclared? {method : MethodDef} (declared : method ∈ definition.methods)
    (fits : query.Fits method) : (query.findDeclared? definition).isSome := by
  rw [findDeclared?, Option.isSome_map, List.find?_isSome]
  exact ⟨method, declared, (accepts_iff method).mpr fits⟩

/-- A method of an internal type is referred to by the signature that is found there. -/
theorem fst_resolve_of_declared {host : Host} {sig : MethodSig}
    (defined : query.definition? host = some definition)
    (isInternal : definition.isExternal = false)
    (found : query.findDeclared? definition = some sig) :
    (query.resolve host).1 = ⟨query.declaring, query.name, sig, query.args⟩ := by
  have internal : query.isInternal host = true := by
    rw [MethodQuery.isInternal, defined]
    simp [isInternal]
  rw [query.resolve_internal internal, defined, Option.bind_some, found]
  rfl

/-- The first method that fits has the recorded signature exactly when no method before the first
that is described fits. -/
theorem sig_eq_signature_iff {index exact : Nat} {method : MethodDef}
    (stands : definition.methods[index]? = some method)
    (first : IsLeast (definition.indices query.Fits) index)
    (described : IsLeast (definition.indices query.Describes) exact) :
    method.sig = query.signature ↔ ∀ earlier < exact, earlier ∉ definition.indices query.Fits := by
  obtain ⟨⟨method', stands', fits⟩, lowest⟩ := first
  cases stands.symm.trans stands'
  constructor
  · intro same earlier before member
    have position : exact ≤ index := described.2 ⟨method, stands, fits.name, same⟩
    have := lowest member
    omega
  · intro unfit
    obtain ⟨⟨target, there, is⟩, _⟩ := described
    have position : index ≤ exact := lowest ⟨target, there, is.fits⟩
    have same : index = exact := by
      by_contra differ
      exact unfit index (by omega) ⟨method, stands, fits⟩
    rw [same, there] at stands
    cases stands
    exact is.2

end MethodQuery

namespace Resolver

section Sessions

variable {resolver : Resolver} {session between : Session} {record : MethodRecord}
  {query : MethodQuery}

/-- The types that a method record names: the declaring type, the type returned, the parameters and
the generic arguments. -/
def recordedTypes (lookup : Lookup) (record : MethodRecord) :
    ResolveM (Option TypeSig × Option TypeSig × Option (List TypeSig) × Option (List TypeSig)) := do
  let declaring ← typeAt lookup record.declaring
  let ret ← typeAt lookup record.ret
  let params ← typesAt lookup record.params
  let args ← typesAt lookup record.args
  return (declaring, ret, params, args)

/-- A query with the name, the flag and the types of a record, all of which are found. -/
structure Recorded (resolver : Resolver) (session : Session) (record : MethodRecord)
    (query : MethodQuery) : Prop where
  name : query.name = record.name
  isStatic : query.isStatic = record.isStatic
  types : ((recordedTypes (resolver.resolveWithin resolver.maxDepth) record).run.run session).1 =
    .ok (some query.declaring, some query.ret, some query.params, some query.args)

theorem Recorded.exists_run_methodDemand (recorded : resolver.Recorded session record query) :
    ∃ between, (methodDemand (resolver.resolveWithin resolver.maxDepth) record).run.run session =
      (.ok (some (.method query)), between) := by
  obtain ⟨name, isStatic, types⟩ := recorded
  obtain ⟨_, _, declaring, rest⟩ := exists_of_run_bind_eq_ok (Prod.ext types rfl)
  obtain ⟨_, _, ret, rest⟩ := exists_of_run_bind_eq_ok rest
  obtain ⟨_, _, params, rest⟩ := exists_of_run_bind_eq_ok rest
  obtain ⟨_, _, args, rest⟩ := exists_of_run_bind_eq_ok rest
  cases rest
  rw [methodDemand, run_bind_ok declaring, run_bind_ok ret, run_bind_ok params, run_bind_ok args,
    ← name, ← isStatic]
  exact ⟨_, rfl⟩

/-- A method record stands for what its query ends in. -/
theorem run_resolveRecord_method {lookup : Lookup} {left : Nat}
    (unhinted : hinted? session.host (.method record) = none)
    (described : (methodDemand lookup record).run.run session =
      (.ok (some (.method query)), between)) :
    (resolver.resolveRecord left lookup (.method record)).run.run session =
      (.ok (some (.method (query.resolve between.host).1)),
        { between with host := (query.resolve between.host).2 }) := by
  rw [run_resolveRecord unhinted, demand, run_bind_ok described]
  exact run_meet_ok (resolver.find_method left between.host query)

theorem repeats_methodDemand (resolver : Resolver) (session : Session) (left : Nat)
    (record : MethodRecord) :
    Repeats resolver (methodDemand (resolver.resolveWithin left) record)
      (methodDemand consult record) session :=
  (@Mirrors.methodDemand resolver.resolveWithin (fun _ => consult) left record).repeats
    repeats_resolveWithin

/-- What stands in the memo table for a method record is what its query ends in, and all that is to
be imported for it is there. -/
theorem eq_of_known {key : Nat} {value : Option Resolved} (sound : resolver.Sound session)
    (known : session.memo.get? key = some value)
    (reads : resolver.readRecord key = .ok (.method record))
    (unhinted : hinted? session.host (.method record) = none) {left : Nat}
    (described : (methodDemand (resolver.resolveWithin left) record).run.run session =
      (.ok (some (.method query)), between)) :
    value = some (.method (query.resolve between.host).1) ∧
      (query.resolve between.host).2 = between.host := by
  -- The entry may be older than the session, so both are read where the record's types are known.
  obtain ⟨keeps, again⟩ := repeats_methodDemand resolver session left record
  rw [described] at keeps again
  have follows := (keeps sound).2
  have consulted := again sound _ between rfl (refl_of Session.Follows between)
  obtain ⟨record', left', reads', recalled⟩ := sound key value known
  cases reads.symm.trans reads'
  have recalled := recalled between follows
  have unhinted' := (hinted?_of_follows follows.host (.method record)).trans unhinted
  rw [run_resolveRecord_method unhinted' consulted] at recalled
  obtain ⟨same, kept⟩ := Prod.mk.inj recalled
  exact ⟨(Except.ok.inj same).symm, congrArg Session.host kept⟩

/-- A method record is resolved to what its query ends in, whether or not it was resolved before. -/
theorem fst_run_resolveMethod {position : UInt32} (sound : resolver.Sound session)
    (low : position.toNat < 0x80000000)
    (reads : resolver.readRecord position.toNat = .ok (.method record))
    (unhinted : hinted? session.host (.method record) = none)
    (described : (methodDemand (resolver.resolveWithin resolver.maxDepth) record).run.run session =
      (.ok (some (.method query)), between)) :
    ((resolver.resolveMethod position).run.run session).1 =
      .ok (some (query.resolve between.host).1) := by
  have proper := not_toInt32_neg low
  have key : position.toInt32.toInt.toNat = position.toNat := by
    rw [toInt_toInt32 low, Int.toNat_natCast]
  cases known : session.memo.get? position.toNat with
  | some value =>
    have same := (eq_of_known sound known reads unhinted described).1
    rw [← key] at known
    rw [resolveMethod, run_methodAt (run_resolveWithin_known proper known), same]
    rfl
  | none =>
    rw [← key] at known reads
    have ends := run_resolveWithin_ok proper known reads
      (run_resolveRecord_method unhinted described)
    rw [resolveMethod, run_methodAt ends]
    rfl

end Sessions

/-- A method record without a usable hint whose types are found, of an internal type that declares a
method with just the recorded signature. Whatever was asked before, the record is resolved to a
reference with the signature of the first declared method that fits, and that is the recorded one
exactly when no method before the first that is described fits. -/
theorem resolveMethod_overloaded {resolver : Resolver} {host : Host} {requests : List Request}
    {session : Session} {position : UInt32} {record : MethodRecord} {query : MethodQuery}
    {definition : TypeDef} (reached : (resolver.answerAll { host } requests).2 = session)
    (low : position.toNat < 0x80000000)
    (reads : resolver.readRecord position.toNat = .ok (.method record))
    (unhinted : hinted? host (.method record) = none)
    (recorded : resolver.Recorded session record query)
    (defined : query.definition? host = some definition)
    (isInternal : definition.isExternal = false)
    (declared : ∃ method ∈ definition.methods, query.Describes method) :
    ∃ index method, definition.methods[index]? = some method ∧
      IsLeast (definition.indices query.Fits) index ∧
      ((resolver.resolveMethod position).run.run session).1 =
        .ok (some ⟨query.declaring, query.name, method.sig, query.args⟩) ∧
      ∀ exact, IsLeast (definition.indices query.Describes) exact →
        (method.sig = query.signature ↔
          ∀ earlier < exact, earlier ∉ definition.indices query.Fits) := by
  subst reached
  obtain ⟨sound, since⟩ := resolver.keeps_answerAll { host } requests (resolver.sound_fresh host)
  obtain ⟨between, described⟩ := recorded.exists_run_methodDemand
  have follows : host.Follows between.host := by
    have later := ((resolver.repeats_methodDemand _ resolver.maxDepth record).keeps sound).2
    rw [described] at later
    exact trans_of Host.Follows since.host later.host
  obtain ⟨target, member, is⟩ := declared
  obtain ⟨sig, found⟩ := Option.isSome_iff_exists.mp (query.isSome_findDeclared? member is.fits)
  obtain ⟨index, method, stands, rfl, first⟩ := query.exists_isLeast_of_findDeclared? found
  refine ⟨index, method, stands, first, ?_, fun exact => query.sig_eq_signature_iff stands first⟩
  have unhinted' := (hinted?_of_follows since.host (.method record)).trans unhinted
  have defined' := (query.definition?_of_follows follows).trans defined
  rw [fst_run_resolveMethod sound low reads unhinted' described,
    query.fst_resolve_of_declared defined' isInternal found]

namespace Overloaded

def typeT : TypeSig := .named false (.top .local "" "T")

def list : TypeSig := .inst (.named false (.top .local "" "L")) [.i4]

/-- Two methods `f`, of a list and of a number, and two instance methods `g`, of nothing and of
a `T`. -/
def definition : TypeDef where
  ref := .top .local "" "T"
  methods :=
    [⟨⟨0x06000001⟩, "f", { ret := .void, params := [list] }⟩,
      ⟨⟨0x06000002⟩, "f", { ret := .void, params := [.i4] }⟩,
      ⟨⟨0x06000003⟩, "g", { hasThis := true, ret := .void }⟩,
      ⟨⟨0x06000004⟩, "g", { hasThis := true, ret := .void, params := [typeT] }⟩]

def host : Host :=
  ((Host.addType { name := "module" } definition).2.addToken ⟨0x02000002⟩ (.type .void)).addToken
    ⟨0x02000003⟩ (.type .i4)

/-- The types `T`, `void` and `int`, the method `f` of an `int` at 15 and the instance method `g` of
a `T` at 43. -/
def records : Bytes :=
  [0, 1, 0, 0, 2] ++ [0, 2, 0, 0, 2] ++ [0, 3, 0, 0, 2] ++
    [3, 0, 0, 0, 0, 0, 0, 0, 0, 1, 102, 1, 5, 0, 0, 0, 1, 0, 0, 0, 10, 0, 0, 0, 0, 0, 0, 0] ++
    [3, 0, 0, 0, 0, 0, 0, 0, 0, 1, 103, 0, 5, 0, 0, 0, 1, 0, 0, 0, 0, 0, 0, 0, 0, 0, 0, 0]

def resolver : Resolver := { stream := { base := .memory records } }

def recordF : MethodRecord := ⟨0, "f", true, false, 5, [10], [], none⟩

def queryF : MethodQuery := ⟨typeT, "f", true, .void, [.i4], []⟩

def recordG : MethodRecord := ⟨0, "g", false, false, 5, [0], [], none⟩

def queryG : MethodQuery := ⟨typeT, "g", false, .void, [typeT], []⟩

/-- The method of a number is declared just as recorded, but the one of a list is found. -/
theorem resolveMethod_list :
    resolver.readRecord 15 = .ok (.method recordF) ∧ hinted? host (.method recordF) = none ∧
    resolver.Recorded { host } recordF queryF ∧ queryF.definition? host = some definition ∧
    definition.isExternal = false ∧ (∃ method ∈ definition.methods, queryF.Describes method) ∧
    ((resolver.resolveMethod 15).run.run { host }).1 =
      .ok (some ⟨typeT, "f", { ret := .void, params := [list] }, []⟩) ∧
    ({ ret := .void, params := [list] } : MethodSig) ≠ queryF.signature := by
  have recorded : resolver.Recorded { host } recordF queryF := ⟨rfl, rfl, by decide +kernel⟩
  refine ⟨?_, ?_, recorded, ?_, ?_, ?_, ?_, ?_⟩ <;> decide +kernel

/-- The instance in the record of `g` may be its parameter or not, and the `g` of nothing comes
first. -/
theorem resolveMethod_overloaded_instance :
    resolver.Recorded (resolver.answerAll { host } [.method 15]).2 recordG queryG ∧
    ∃ index method, definition.methods[index]? = some method ∧
      IsLeast (definition.indices queryG.Fits) index ∧
      ((resolver.resolveMethod 43).run.run (resolver.answerAll { host } [.method 15]).2).1 =
        .ok (some ⟨typeT, "g", method.sig, []⟩) ∧
      method.sig ≠ queryG.signature := by
  have recorded : resolver.Recorded (resolver.answerAll { host } [.method 15]).2 recordG queryG :=
    ⟨rfl, rfl, by decide +kernel⟩
  have reads : resolver.readRecord (43 : UInt32).toNat = .ok (.method recordG) := by decide +kernel
  have defined : queryG.definition? host = some definition := by decide +kernel
  obtain ⟨index, method, stands, first, found, exactly⟩ :=
    resolveMethod_overloaded rfl (by decide) reads rfl recorded defined rfl (by decide +kernel)
  have least : IsLeast (definition.indices queryG.Describes) 3 := by
    refine ⟨⟨_, rfl, by decide +kernel⟩, ?_⟩
    rintro (_ | _ | _ | other) ⟨_, stands, is⟩
    · cases stands
      exact absurd is (by decide +kernel)
    · cases stands
      exact absurd is (by decide +kernel)
    · cases stands
      exact absurd is (by decide +kernel)
    · omega
  refine ⟨recorded, index, method, stands, first, found, fun same => ?_⟩
  exact (exactly 3 least).mp same 2 (by decide) ⟨_, rfl, by decide +kernel⟩

end Overloaded

end Resolver

end CilRecovery
