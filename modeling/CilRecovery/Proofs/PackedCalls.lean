import CilRecovery.Proofs.References

/-!
Calls with generic arguments of their own. The method of such a call is put together from a record
and generalized over the arguments of the record, and then once more over those of the call. The
parameters of the first time are still there the second time, so the reference is well formed exactly
if the call has arguments for them too.
-/
namespace CilRecovery

namespace Resolver

/-! ### Deeper lookups -/

/-- What an operation finds, another finds as well, and it leaves the same session. -/
def Extends (operation more : ResolveM α) : Prop :=
  ∀ session value after, operation.run.run session = (.ok value, after) →
    more.run.run session = (.ok value, after)

theorem Extends.bind {first more : ResolveM α} {next nextMore : α → ResolveM β}
    (now : Extends first more) (later : ∀ value, Extends (next value) (nextMore value)) :
    Extends (first >>= next) (more >>= nextMore) := by
  intro session value after ends
  obtain ⟨found, between, head, rest⟩ := exists_of_run_bind_eq_ok ends
  rw [run_bind_ok (now session _ between head)]
  exact later found between value after rest

theorem Mirrors.extends {first second : Nat → Lookup}
    (looks : ∀ left position, Extends (first left position) (second left position))
    {a b : ResolveM α} (mirrors : Mirrors first second a b) : Extends a b := by
  induction mirrors with
  | pure value => exact fun _ _ _ => id
  | throw is => exact fun _ _ _ => id
  | look left position => exact looks left position
  | bind _ _ now later => exact .bind now later

section Depth

variable (resolver : Resolver)

theorem mapM_of_each {α β : Type} {f g : α → Except Error β} {list : List α} {results : List β}
    (each : ∀ a b, f a = .ok b → g a = .ok b) (ends : list.mapM f = .ok results) :
    list.mapM g = .ok results := by
  induction list generalizing results with
  | nil => exact ends
  | cons a rest ih =>
    rw [List.mapM_cons] at ends ⊢
    obtain ⟨b, first, ends⟩ := exists_of_bind_eq_ok ends
    obtain ⟨others, tail, ends⟩ := exists_of_bind_eq_ok ends
    rw [each a b first, ih tail]
    exact ends

theorem namedType_deeper {host : Host} {left : Nat} {name : TypeName} {given : List TypeSig}
    {sig : TypeSig} (named : namedType resolver host left name given = .ok sig) :
    namedType resolver host (left + 1) name given = .ok sig := by
  induction left generalizing name given sig with
  | zero => cases named
  | succ left ih =>
    rw [namedType] at named ⊢
    split at named
    · rename_i isEmpty
      obtain ⟨args, found, rest⟩ := exists_of_bind_eq_ok named
      rw [if_pos isEmpty, mapM_of_each (fun _ _ => ih) found]
      exact rest
    · rename_i isEmpty
      rw [if_neg isEmpty]
      exact named

theorem find_deeper {left : Nat} {host : Host} {demand : Demand} {result : Option Resolved × Host}
    (finds : find resolver left host demand = .ok result) :
    find resolver (left + 1) host demand = .ok result := by
  cases demand with
  | type name args =>
    obtain ⟨sig, named, rest⟩ := exists_of_bind_eq_ok finds
    rw [find, resolver.namedType_deeper named]
    exact rest
  | _ => exact finds

theorem extends_meet (left : Nat) (demand? : Option Demand) :
    Extends (meet resolver left demand?) (meet resolver (left + 1) demand?) := by
  intro session value after ends
  cases demand? with
  | none => exact ends
  | some demand =>
    cases finds : find resolver left session.host demand with
    | error e =>
      rw [run_meet_error finds] at ends
      cases ends
    | ok pair =>
      rw [run_meet_ok finds] at ends
      rw [run_meet_ok (resolver.find_deeper finds)]
      exact ends

theorem extends_resolveRecord {lookup more : Lookup}
    (looks : ∀ position, Extends (lookup position) (more position)) (left : Nat)
    (record : OperandRecord) :
    Extends (resolver.resolveRecord left lookup record)
      (resolver.resolveRecord (left + 1) more record) := by
  have demands : Extends (demand lookup record) (demand more record) :=
    (@Mirrors.demand (fun _ => lookup) (fun _ => more) 0 record).extends fun _ => looks
  intro session value after ends
  cases hinted : hinted? session.host record with
  | some resolved =>
    rw [run_resolveRecord_hinted hinted] at ends ⊢
    exact ends
  | none =>
    rw [run_resolveRecord hinted] at ends ⊢
    exact demands.bind (resolver.extends_meet left) session value after ends

/-- What is found within a depth is found within a greater depth. -/
theorem extends_resolveWithin (left : Nat) (position : Int32) :
    Extends (resolver.resolveWithin left position) (resolver.resolveWithin (left + 1) position) := by
  induction left generalizing position with
  | zero =>
    intro session value after ends
    cases ends
  | succ left ih =>
    intro session value after ends
    rcases of_resolveWithin ends with
      ⟨negative, rfl, rfl⟩ | ⟨proper, known, rfl⟩ | ⟨proper, unknown, record, between, reads, inner, rfl⟩
    · exact run_resolveWithin_negative negative
    · exact run_resolveWithin_known proper known
    · refine run_resolveWithin_ok proper unknown reads ?_
      exact resolver.extends_resolveRecord ih (left + 1) record session value between inner

end Depth

end Resolver

/-! ### Types without generic parameters -/

namespace TypeSig

theorem generics_ofRef (ref : TypeRef) (isValue : Bool) : (ofRef ref isValue).generics = [] := by
  unfold ofRef
  split
  · split <;> rfl
  · rfl

/-- The arguments of a type without parameters have none either. -/
theorem generics_of_mem_genericArgs {sig arg : TypeSig} (closed : sig.generics = [])
    (member : arg ∈ sig.genericArgs) : arg.generics = [] := by
  cases sig with
  | inst generic args =>
    simp only [generics, genericsAll_eq, List.append_eq_nil_iff, List.flatMap_eq_nil_iff] at closed
    exact closed.2 arg member
  | _ => cases member

theorem sizeOf_lt_inst {arg : TypeSig} {args : List TypeSig} (generic : TypeSig)
    (member : arg ∈ args) : sizeOf arg < sizeOf (inst generic args) := by
  have := List.sizeOf_lt_of_mem member
  simp only [inst.sizeOf_spec]
  omega

end TypeSig

namespace TypeName

theorem generics_applyModifiers (name : TypeName) (element : TypeSig) :
    (name.applyModifiers element).generics = element.generics := by
  rw [applyModifiers]
  induction name.modifiers generalizing element with
  | nil => rfl
  | cons modifier rest ih =>
    rw [List.foldl_cons, ih]
    cases modifier <;> rfl

theorem sizeOf_le_applyModifiers (name : TypeName) (element : TypeSig) :
    sizeOf element ≤ sizeOf (name.applyModifiers element) := by
  rw [applyModifiers]
  induction name.modifiers generalizing element with
  | nil => exact Nat.le_refl _
  | cons modifier rest ih =>
    have grows : sizeOf element ≤ sizeOf (modifier.apply element) := by
      cases modifier with
      | array rank =>
        simp [TypeModifier.apply]
        omega
      | _ => simp [TypeModifier.apply]
    exact grows.trans (ih _)

end TypeName

namespace Resolver

section Named

variable {resolver : Resolver} {host : Host} {left : Nat} {name : TypeName} {given : List TypeSig}
  {sig : TypeSig}

/-- A type that is made from a name has the given arguments, or else those in the name. -/
theorem of_namedType (named : namedType resolver host (left + 1) name given = .ok sig) :
    ∃ element args, element.generics = [] ∧
      sig = name.applyModifiers (if args.isEmpty then element else .inst element args) ∧
      (given = [] ∧ (name.args.mapM fun arg => namedType resolver host left arg []) = .ok args ∨
        given ≠ [] ∧ args = given) := by
  rw [namedType] at named
  split at named
  · rename_i isEmpty
    obtain ⟨args, found, rest⟩ := exists_of_bind_eq_ok named
    cases rest
    refine ⟨_, args, ?_, rfl, .inl ⟨List.isEmpty_iff.mp isEmpty, found⟩⟩
    split <;> exact TypeSig.generics_ofRef _ _
  · rename_i isEmpty
    cases named
    refine ⟨_, given, ?_, rfl, .inr ⟨by simpa using isEmpty, rfl⟩⟩
    split <;> exact TypeSig.generics_ofRef _ _

theorem generics_of_namedType (named : namedType resolver host left name given = .ok sig)
    (closed : ∀ arg ∈ given, arg.generics = []) : sig.generics = [] := by
  induction left generalizing name given sig with
  | zero => cases named
  | succ left ih =>
    obtain ⟨element, args, plain, rfl, source⟩ := of_namedType named
    have each : ∀ arg ∈ args, arg.generics = [] := by
      rcases source with ⟨_, found⟩ | ⟨_, rfl⟩
      · intro arg member
        obtain ⟨inner, _, is⟩ := exists_of_mem_mapM found member
        exact ih is (by simp)
      · exact closed
    rw [TypeName.generics_applyModifiers]
    split
    · exact plain
    · simp only [TypeSig.generics, TypeSig.genericsAll_eq, plain, List.nil_append,
        List.flatMap_eq_nil_iff]
      exact each

theorem sizeOf_lt_of_namedType (named : namedType resolver host left name given = .ok sig)
    {arg : TypeSig} (member : arg ∈ given) : sizeOf arg < sizeOf sig := by
  cases left with
  | zero => cases named
  | succ left =>
    obtain ⟨element, args, _, rfl, source⟩ := of_namedType named
    rcases source with ⟨rfl, _⟩ | ⟨nonempty, rfl⟩
    · cases member
    · rw [if_neg (by simpa using nonempty)]
      exact (TypeSig.sizeOf_lt_inst element member).trans_le (name.sizeOf_le_applyModifiers _)

end Named

end Resolver

/-- A record that brings no generic parameter into a type: it spells the type out, without a hint
that could be used, or its token stands for a type without parameters. -/
def OperandRecord.IsPlain (host : Host) : OperandRecord → Prop
  | .type record => record.param = none ∧ Resolver.hinted? host (.type record) = none
  | .token handle => ∀ sig, host.lookupToken? handle = some (.type sig) → sig.generics = []
  | _ => True

/-- The positions of the types that a method record names. -/
def MethodRecord.types (record : MethodRecord) : List Int32 :=
  record.declaring :: record.ret :: (record.params ++ record.args)

namespace Resolver

/-- A record stands at a position. There is none at a negative one. -/
def Holds (resolver : Resolver) (position : Int32) (record : OperandRecord) : Prop :=
  ¬ position < 0 ∧ resolver.readRecord position.toInt.toNat = .ok record

/-- The records that the types at some positions are made from. -/
inductive Involved (resolver : Resolver) (positions : List Int32) : OperandRecord → Prop where
  | listed {position : Int32} {record : OperandRecord} (member : position ∈ positions)
    (holds : resolver.Holds position record) : Involved resolver positions record
  | argument {outer : TypeRecord} {position : Int32} {record : OperandRecord}
    (inside : Involved resolver positions (.type outer)) (member : position ∈ outer.args)
    (holds : resolver.Holds position record) : Involved resolver positions record

section Memo

variable {resolver : Resolver} {host : Host} {session after : Session} {positions : List Int32}

/-- The type at a position stands in the memo table. -/
def Knows (session : Session) (position : Int32) (sig : TypeSig) : Prop :=
  ¬ position < 0 ∧ session.memo.get? position.toInt.toNat = some (some (.type sig))

theorem of_typeAt_consult {position : Int32} {sig : TypeSig}
    (found : (typeAt consult position).run.run session = (.ok (some sig), after)) :
    after = session ∧ Knows session position sig := by
  have looked := run_of_typeAt found
  by_cases negative : position < 0
  · rw [run_consult_negative negative] at looked
    cases looked
  · cases known : session.memo.get? position.toInt.toNat with
    | none =>
      rw [consult, if_neg negative, run_get_bind, known] at looked
      cases looked
    | some value =>
      rw [run_consult negative known] at looked
      cases looked
      exact ⟨rfl, negative, known⟩

theorem of_typesAt_consult {sigs : List TypeSig}
    (found : (typesAt consult positions).run.run session = (.ok (some sigs), after)) :
    after = session ∧ ∀ sig ∈ sigs, ∃ position ∈ positions, Knows session position sig := by
  induction positions generalizing sigs with
  | nil =>
    cases found
    simp
  | cons position rest ih =>
    obtain ⟨sig, more, between, rfl, first, others⟩ := exists_of_typesAt_cons found
    obtain ⟨rfl, known⟩ := of_typeAt_consult first
    obtain ⟨rfl, each⟩ := ih others
    refine ⟨rfl, fun other member => ?_⟩
    rcases List.mem_cons.mp member with rfl | later
    · exact ⟨position, by simp, known⟩
    · obtain ⟨place, there, known'⟩ := each other later
      exact ⟨place, by simp [there], known'⟩

/-- A record that stands for a type is one of a type or of a token. -/
theorem kind_of_type {lookup : Lookup} {left : Nat} {record : OperandRecord} {sig : TypeSig}
    (ends : (resolver.resolveRecord left lookup record).run.run session =
      (.ok (some (.type sig)), after)) : record.kind = .type ∨ record.kind = .token := by
  cases hinted : hinted? session.host record with
  | some resolved =>
    rw [run_resolveRecord_hinted hinted] at ends
    cases ends
    unfold hinted? at hinted
    split at hinted <;> cases hinted
    exact .inl rfl
  | none =>
    obtain ⟨demand, between, _, demands, finds, _⟩ := exists_of_resolveRecord hinted ends
    cases record with
    | type record => exact .inl rfl
    | token token => exact .inr rfl
    | userString text =>
      cases demands
      cases finds
    | method record =>
      obtain ⟨_, _, _, _, _, _, _, rfl, _⟩ := exists_of_methodDemand demands
      rw [find_method] at finds
      cases finds
    | field record =>
      obtain ⟨declaring, rfl, _⟩ := exists_of_fieldDemand demands
      rw [find_field] at finds
      obtain ⟨_, _, same⟩ := Option.map_eq_some_iff.mp (Prod.mk.inj (Except.ok.inj finds)).1
      cases same
    | packedCall record =>
      obtain ⟨method, rfl⟩ := exists_of_callDemand demands
      cases finds

/-- A type that is made from plain records has no generic parameters. -/
theorem Knows.generics {position : Int32} {record : OperandRecord} {sig : TypeSig}
    (known : Knows session position sig) (sound : resolver.Sound session)
    (since : host.Follows session.host)
    (plain : ∀ operand, resolver.Involved positions operand → operand.IsPlain host)
    (involved : resolver.Involved positions record) (holds : resolver.Holds position record) :
    sig.generics = [] := by
  induction size : sizeOf sig using Nat.strongRecOn generalizing position record sig with
  | ind size ih =>
    subst size
    obtain ⟨record', left, reads, recalled⟩ := sound _ _ known.2
    cases holds.2.symm.trans reads
    have ends := recalled session (refl_of Session.Follows session)
    have is := plain record involved
    cases record with
    | type record =>
      have unhinted := (hinted?_of_follows since (.type record)).trans is.2
      obtain ⟨demand, between, _, demands, finds, _⟩ := exists_of_resolveRecord unhinted ends
      obtain ⟨name, args, rfl, given⟩ := exists_of_typeDemand is.1 demands
      obtain ⟨rfl, each⟩ := of_typesAt_consult given
      obtain ⟨_, named, same⟩ := exists_of_bind_eq_ok finds
      cases same
      apply generics_of_namedType named
      intro arg member
      obtain ⟨place, there, known'⟩ := each arg member
      obtain ⟨operand, _, reads', _⟩ := sound _ _ known'.2
      have holds' : resolver.Holds place operand := ⟨known'.1, reads'⟩
      exact ih _ (sizeOf_lt_of_namedType named member) known' (.argument involved there holds')
        holds' rfl
    | token token =>
      have unhinted : hinted? session.host (.token token) = none := rfl
      obtain ⟨demand, between, _, demands, finds, _⟩ := exists_of_resolveRecord unhinted ends
      cases demands
      apply is
      rw [Host.lookupToken?, ← since.tokens]
      exact (Prod.mk.inj (Except.ok.inj finds)).1
    | _ => rcases kind_of_type ends with kind | kind <;> cases kind

theorem Knows.generics_of_mem {position : Int32} {sig : TypeSig}
    (known : Knows session position sig) (sound : resolver.Sound session)
    (since : host.Follows session.host)
    (plain : ∀ operand, resolver.Involved positions operand → operand.IsPlain host)
    (member : position ∈ positions) : sig.generics = [] := by
  obtain ⟨record, _, reads, _⟩ := sound _ _ known.2
  have holds : resolver.Holds position record := ⟨known.1, reads⟩
  exact known.generics sound since plain (.listed member holds) holds

/-- The types of a record that are made from plain records have no generic parameters. -/
theorem Recorded.generics {record : MethodRecord} {query : MethodQuery}
    (recorded : resolver.Recorded session record query) (sound : resolver.Sound session)
    (since : host.Follows session.host)
    (plain : ∀ operand, resolver.Involved positions operand → operand.IsPlain host)
    (listed : record.types ⊆ positions) :
    query.signature.generics = [] ∧ query.declaring.generics = [] ∧
      ∀ arg ∈ query.args, arg.generics = [] := by
  -- Once the types are found they stand in the memo table, so it is read there.
  obtain ⟨between, described⟩ := recorded.exists_run_methodDemand
  obtain ⟨keeps, again⟩ := resolver.repeats_methodDemand session resolver.maxDepth record
  rw [described] at keeps again
  obtain ⟨sound', follows⟩ := keeps sound
  have since' := trans_of Host.Follows since follows.host
  obtain ⟨declaring, ret, params, args, _, _, _, same, declared, returned, taken, given⟩ :=
    exists_of_methodDemand (again sound _ between rfl (refl_of Session.Follows between))
  cases same
  obtain ⟨rfl, declared⟩ := of_typeAt_consult declared
  obtain ⟨rfl, returned⟩ := of_typeAt_consult returned
  obtain ⟨rfl, taken⟩ := of_typesAt_consult taken
  obtain ⟨_, given⟩ := of_typesAt_consult given
  have closed {position : Int32} {sig : TypeSig} (member : position ∈ record.types)
      (known : Knows _ position sig) : sig.generics = [] :=
    known.generics_of_mem sound' since' plain (listed member)
  refine ⟨?_, closed (by simp [MethodRecord.types]) declared, ?_⟩
  · simp only [MethodSig.generics, MethodQuery.signature, TypeSig.genericsAll_eq,
      List.append_eq_nil_iff, List.flatMap_eq_nil_iff]
    refine ⟨closed (by simp [MethodRecord.types]) returned, fun param member => ?_⟩
    obtain ⟨position, there, known⟩ := taken param member
    exact closed (by simp [MethodRecord.types, there]) known
  · intro arg member
    obtain ⟨position, there, known⟩ := given arg member
    exact closed (by simp [MethodRecord.types, there]) known

/-- The same for types in a row. -/
theorem generics_of_typesAt {left : Nat} {places : List Int32} {sigs : List TypeSig}
    (found : (typesAt (resolver.resolveWithin left) places).run.run session =
      (.ok (some sigs), after)) (sound : resolver.Sound session) (since : host.Follows session.host)
    (plain : ∀ operand, resolver.Involved positions operand → operand.IsPlain host)
    (listed : places ⊆ positions) : ∀ sig ∈ sigs, sig.generics = [] := by
  have repeats : Repeats resolver (typesAt (resolver.resolveWithin left) places)
      (typesAt consult places) session :=
    (@Mirrors.typesAt resolver.resolveWithin (fun _ => consult) left places).repeats
      repeats_resolveWithin
  obtain ⟨keeps, again⟩ := repeats
  rw [found] at keeps again
  obtain ⟨sound', follows⟩ := keeps sound
  obtain ⟨_, known⟩ :=
    of_typesAt_consult (again sound _ after rfl (refl_of Session.Follows after))
  intro sig member
  obtain ⟨position, there, known⟩ := known sig member
  exact known.generics_of_mem sound' (trans_of Host.Follows since follows.host) plain (listed there)

end Memo

end Resolver

/-! ### Well-formed references -/

namespace MethodRef

/-- A reference with an argument for each generic parameter. -/
structure WellFormed (method : MethodRef) : Prop where
  count : method.sig.genericParams = method.genericArgs.length
  given : ∀ param ∈ method.sig.generics,
    param.IsGiven method.genericArgs method.declaring.genericArgs

/-- The reference for other generic arguments. -/
def withArgs (method : MethodRef) (args : List TypeSig) : MethodRef :=
  if args = method.genericArgs then method
  else
    { method with
      sig := method.sig.generalize args method.declaring.genericArgs
      genericArgs := args }

variable {method : MethodRef} {args : List TypeSig}

@[simp]
theorem withArgs_genericArgs : method.withArgs method.genericArgs = method := if_pos rfl

@[simp]
theorem declaring_withArgs : (method.withArgs args).declaring = method.declaring := by
  unfold withArgs
  split <;> rfl

@[simp]
theorem genericArgs_withArgs : (method.withArgs args).genericArgs = args := by
  unfold withArgs
  split
  · rename_i same
    exact same.symm
  · rfl

theorem WellFormed.count_withArgs (is : method.WellFormed) :
    (method.withArgs args).sig.genericParams = args.length := by
  unfold withArgs
  split
  · rename_i same
    rw [same]
    exact is.count
  · rfl

theorem of_mem_withArgs {param : GenericParam}
    (member : param ∈ (method.withArgs args).sig.generics) :
    param.IsGiven args method.declaring.genericArgs ∨ param ∈ method.sig.generics := by
  unfold withArgs at member
  split at member
  · exact .inr member
  · exact MethodSig.of_mem_generics_generalize member

theorem mem_withArgs (closed : ∀ arg ∈ args, arg.generics = [])
    (declaring : ∀ arg ∈ method.declaring.genericArgs, arg.generics = []) {param : GenericParam}
    (member : param ∈ method.sig.generics) : param ∈ (method.withArgs args).sig.generics := by
  unfold withArgs
  split
  · exact member
  · exact MethodSig.mem_generics_generalize closed declaring member

/-- With other arguments, a reference is well formed exactly if there are arguments for the
parameters that it has already. -/
theorem WellFormed.withArgs_iff (is : method.WellFormed) (closed : ∀ arg ∈ args, arg.generics = [])
    (declaring : ∀ arg ∈ method.declaring.genericArgs, arg.generics = []) :
    (method.withArgs args).WellFormed ↔
      ∀ param ∈ method.sig.generics, param.IsGiven args method.declaring.genericArgs := by
  constructor
  · intro formed param member
    simpa using formed.given param (mem_withArgs closed declaring member)
  · intro given
    refine ⟨by rw [is.count_withArgs, genericArgs_withArgs], fun param member => ?_⟩
    rw [genericArgs_withArgs, declaring_withArgs]
    exact (of_mem_withArgs member).elim id (given param)

end MethodRef

theorem MethodQuery.wellFormed_synthesized {query : MethodQuery}
    (closed : query.signature.generics = []) : query.synthesized.WellFormed :=
  ⟨rfl, fun _ member => query.isGiven_of_mem_synthesize closed member⟩

namespace Resolver

section Calls

variable {resolver : Resolver} {lookup : Lookup} {session after : Session}

theorem length_of_typesAt {positions : List Int32} {sigs : List TypeSig}
    (found : (typesAt lookup positions).run.run session = (.ok (some sigs), after)) :
    sigs.length = positions.length := by
  induction positions generalizing session sigs with
  | nil =>
    cases found
    rfl
  | cons position rest ih =>
    obtain ⟨sig, more, between, rfl, _, others⟩ := exists_of_typesAt_cons found
    simp [ih others]

/-- A call means the method that it refers to, with the arguments of the call if it has any. -/
theorem exists_of_packedCall {call : CallRecord} {method : MethodRef} {isVirtual : Bool}
    (ends : (packedCall lookup call).run.run session = (.ok (some (method, isVirtual)), after)) :
    ∃ reference between args,
      (methodAt lookup call.method).run.run session = (.ok (some reference), between) ∧
      method = reference.withArgs args ∧
      (call.args = [] ∧ args = reference.genericArgs ∨
        call.args ≠ [] ∧ (typesAt lookup call.args).run.run between = (.ok (some args), after)) := by
  obtain ⟨reference, between, refers, rest⟩ := exists_of_run_bind_eq_some ends rfl
  dsimp only at rest
  split at rest
  · rename_i isEmpty
    cases rest
    exact ⟨method, _, method.genericArgs, refers, by simp, .inl ⟨List.isEmpty_iff.mp isEmpty, rfl⟩⟩
  · rename_i nonempty
    have own : call.args ≠ [] := by simpa using nonempty
    obtain ⟨args, last, given, rest⟩ := exists_of_run_bind_eq_some rest rfl
    dsimp only at rest
    split at rest
    · rename_i same
      cases rest
      exact ⟨method, between, args, refers, by simp [same], .inr ⟨own, given⟩⟩
    · rename_i differ
      cases rest
      exact ⟨reference, between, args, refers, (if_neg differ).symm, .inr ⟨own, given⟩⟩

theorem toNat_toUInt32 {position : Int32} (proper : ¬ position < 0) :
    position.toUInt32.toNat = position.toInt.toNat ∧ position.toUInt32.toNat < 0x80000000 := by
  rw [Int32.lt_iff_toInt_lt, Int32.toInt_zero] at proper
  have value : position.toInt =
      if 2 * position.toUInt32.toNat < 0x100000000 then (position.toUInt32.toNat : Int)
      else position.toUInt32.toNat - 0x100000000 := BitVec.toInt_eq_toNat_cond position.toBitVec
  have bound := position.toUInt32.toNat_lt
  split at value <;> omega

/-- The method that a call refers to is what the query of its record ends in. -/
theorem eq_of_referred {position : Int32} {record : MethodRecord} {query : MethodQuery}
    {reference : MethodRef} (sound : resolver.Sound session)
    (holds : resolver.Holds position (.method record))
    (unhinted : hinted? session.host (.method record) = none)
    (recorded : resolver.Recorded session record query)
    (found : (methodAt (resolver.resolveWithin resolver.maxDepth) position).run.run session =
      (.ok (some reference), after)) : reference = (query.resolve session.host).1 := by
  obtain ⟨same, low⟩ := toNat_toUInt32 holds.1
  have reads : resolver.readRecord position.toUInt32.toNat = .ok (.method record) := by
    rw [same]
    exact holds.2
  obtain ⟨_, ends, _⟩ := exists_run_resolveMethod sound low reads unhinted recorded
  -- The call looks one level less deep than a method on its own.
  have deeper : (resolver.resolveMethod position.toUInt32).run.run session =
      (.ok (some reference), after) :=
    (@Mirrors.methodAt resolver.resolveWithin (fun left => resolver.resolveWithin (left + 1))
      resolver.maxDepth position).extends resolver.extends_resolveWithin session _ after found
  rw [deeper] at ends
  cases ends
  rfl

end Calls

/-- A packed call of a method that is put together from its record, all types being made from records
without generic parameters and without usable hints. The method that the call means has as many
generic parameters as arguments, and arguments for all parameters of the declaring type. It is well
formed exactly if the call has an argument for every parameter in the signature of the record, as it
has if the call has no arguments of its own or no fewer than the record. -/
theorem resolveCall_generics {resolver : Resolver} {host : Host} {requests : List Request}
    {session : Session} {position : UInt32} {call : CallRecord} {record : MethodRecord}
    {query : MethodQuery} {method : MethodRef} {isVirtual : Bool}
    (reached : (resolver.answerAll { host } requests).2 = session)
    (reads : resolver.readRecord position.toNat = .ok (.packedCall call))
    (refers : resolver.Holds call.method (.method record))
    (unhinted : hinted? host (.method record) = none)
    (plain : ∀ operand, resolver.Involved (record.types ++ call.args) operand →
      operand.IsPlain host)
    (recorded : resolver.Recorded session record query)
    (synthesized : (query.resolve session.host).1 = query.synthesized)
    (called : ((resolver.resolveCall position).run.run session).1 =
      .ok (some (method, isVirtual))) :
    method.sig.genericParams = method.genericArgs.length ∧
    (∀ param ∈ method.sig.generics, param.onMethod = false →
      param.IsGiven method.genericArgs method.declaring.genericArgs) ∧
    (method.WellFormed ↔ ∀ param ∈ query.synthesize.generics,
      param.IsGiven method.genericArgs method.declaring.genericArgs) ∧
    (call.args = [] ∨ query.args.length ≤ call.args.length → method.WellFormed) := by
  subst reached
  obtain ⟨sound, since⟩ := resolver.keeps_answerAll { host } requests (resolver.sound_fresh host)
  have unhinted' := (hinted?_of_follows since.host (.method record)).trans unhinted
  obtain ⟨signature, declaring, recordArgs⟩ :=
    recorded.generics sound since.host plain (List.subset_append_left _ _)
  rw [resolveCall, reads] at called
  have packed : (packedCall (resolver.resolveWithin resolver.maxDepth) call).run.run
      (resolver.answerAll { host } requests).2 = (.ok (some (method, isVirtual)), _) :=
    Prod.ext called rfl
  obtain ⟨reference, between, args, found, rfl, source⟩ := exists_of_packedCall packed
  obtain rfl : reference = query.synthesized :=
    (eq_of_referred sound refers unhinted' recorded found).trans synthesized
  have formed := query.wellFormed_synthesized signature
  have closed : ∀ arg ∈ args, arg.generics = [] := by
    rcases source with ⟨_, rfl⟩ | ⟨_, given⟩
    · exact recordArgs
    · have keeps := ((@Mirrors.methodAt resolver.resolveWithin (fun _ => consult) resolver.maxDepth
        call.method).repeats repeats_resolveWithin).keeps sound
      rw [found] at keeps
      exact generics_of_typesAt given keeps.1 (trans_of Host.Follows since.host keeps.2.host) plain
        (List.subset_append_right _ _)
  have iff := formed.withArgs_iff closed fun _ => TypeSig.generics_of_mem_genericArgs declaring
  rw [formed.count_withArgs, MethodRef.genericArgs_withArgs, MethodRef.declaring_withArgs]
  refine ⟨rfl, fun param member onType => ?_, iff, fun covered => iff.mpr fun param member => ?_⟩
  · rcases MethodRef.of_mem_withArgs member with given | was
    · exact given
    · exact (formed.given param was).mono (by simp [onType])
  · refine (formed.given param member).mono fun _ => ?_
    rcases source with ⟨_, rfl⟩ | ⟨own, given⟩
    · exact Nat.le_refl _
    · rw [length_of_typesAt given]
      exact covered.resolve_left own

namespace FewerArguments

def host : Host := { name := "module" }

/-- The types `E`, `A`, `B` and `C`, the method `E::f<A, B>` that returns `B` at 68, a call of it with
the argument `C` at 100 and one with the arguments `C` and `A` at 113. -/
def records : Bytes :=
  [1, 0, 0, 0, 0, 1, 69, 0, 0, 0, 0, 0, 0, 0, 0, 0, 0] ++
    [1, 0, 0, 0, 0, 1, 65, 0, 0, 0, 0, 0, 0, 0, 0, 0, 0] ++
    [1, 0, 0, 0, 0, 1, 66, 0, 0, 0, 0, 0, 0, 0, 0, 0, 0] ++
    [1, 0, 0, 0, 0, 1, 67, 0, 0, 0, 0, 0, 0, 0, 0, 0, 0] ++
    [3, 0, 0, 0, 0, 0, 0, 0, 0, 1, 102, 1, 34, 0, 0, 0, 0, 0, 0, 0, 2, 0, 0, 0, 17, 0, 0, 0, 34, 0, 0,
      0] ++
    [4, 68, 0, 0, 64, 1, 0, 0, 0, 51, 0, 0, 0] ++
    [4, 68, 0, 0, 64, 2, 0, 0, 0, 51, 0, 0, 0, 17, 0, 0, 0]

def resolver : Resolver := { stream := { base := .memory records } }

def named (name : String) : TypeSig := .named false (.top .local "" name)

def record : MethodRecord := ⟨0, "f", true, false, 34, [], [17, 34], none⟩

def query : MethodQuery := ⟨named "E", "f", true, named "B", [], [named "A", named "B"]⟩

/-- What a call of the method means: the method returns its second parameter. -/
def called (args : List TypeSig) : MethodRef :=
  ⟨named "E", "f", { ret := .methodParam 1, genericParams := args.length }, args⟩

theorem isPlain_of_involved {positions : List Int32} (listed : positions ⊆ [0, 17, 34, 51])
    {operand : OperandRecord} (involved : resolver.Involved positions operand) :
    operand.IsPlain host := by
  have types : resolver.readRecord 0 = .ok (.type ⟨"E", [], none, none⟩) ∧
      resolver.readRecord 17 = .ok (.type ⟨"A", [], none, none⟩) ∧
      resolver.readRecord 34 = .ok (.type ⟨"B", [], none, none⟩) ∧
      resolver.readRecord 51 = .ok (.type ⟨"C", [], none, none⟩) := by decide +kernel
  have spelled : ∃ name, operand = .type ⟨name, [], none, none⟩ := by
    induction involved with
    | listed member holds =>
      have there := listed member
      simp only [List.mem_cons, List.not_mem_nil, or_false] at there
      rcases there with rfl | rfl | rfl | rfl
      · cases holds.2.symm.trans types.1
        exact ⟨_, rfl⟩
      · cases holds.2.symm.trans types.2.1
        exact ⟨_, rfl⟩
      · cases holds.2.symm.trans types.2.2.1
        exact ⟨_, rfl⟩
      · cases holds.2.symm.trans types.2.2.2
        exact ⟨_, rfl⟩
    | argument inside member holds ih =>
      obtain ⟨name, same⟩ := ih
      cases same
      cases member
  obtain ⟨name, rfl⟩ := spelled
  exact ⟨rfl, rfl⟩

/-- The method has two parameters, and the call has one argument: the second parameter is left
without one. -/
theorem not_wellFormed_called :
    resolver.readRecord 100 = .ok (.packedCall ⟨68, [51], false⟩) ∧
    resolver.Holds 68 (.method record) ∧ hinted? host (.method record) = none ∧
    (∀ operand, resolver.Involved (record.types ++ [51]) operand → operand.IsPlain host) ∧
    resolver.Recorded { host } record query ∧ query.definition? host = none ∧
    query.findImported? host.importedMethods = none ∧
    ((resolver.resolveCall 100).run.run { host }).1 = .ok (some (called [named "C"], false)) ∧
    ¬ (called [named "C"]).WellFormed := by
  have recorded : resolver.Recorded { host } record query := ⟨rfl, rfl, by decide +kernel⟩
  have refers : resolver.Holds 68 (.method record) := ⟨by decide, by decide +kernel⟩
  refine ⟨by decide +kernel, refers, rfl, fun _ => isPlain_of_involved (by decide), recorded,
    by decide +kernel, by decide +kernel, by decide +kernel, fun formed => ?_⟩
  exact absurd (formed.given ⟨1, true⟩ (by decide)) (by decide)

theorem resolveCall_generics_enough :
    ((resolver.resolveCall 113).run.run { host }).1 =
      .ok (some (called [named "C", named "A"], false)) ∧
    (called [named "C", named "A"]).WellFormed := by
  have reads : resolver.readRecord (113 : UInt32).toNat = .ok (.packedCall ⟨68, [51, 17], false⟩) := by
    decide +kernel
  have recorded : resolver.Recorded { host } record query := ⟨rfl, rfl, by decide +kernel⟩
  have refers : resolver.Holds 68 (.method record) := ⟨by decide, by decide +kernel⟩
  have synthesized : (query.resolve host).1 = query.synthesized := by decide +kernel
  have ends : ((resolver.resolveCall 113).run.run { host }).1 =
      .ok (some (called [named "C", named "A"], false)) := by decide +kernel
  have reached : (resolver.answerAll { host } []).2 = { host } := rfl
  obtain ⟨_, _, _, enough⟩ := resolveCall_generics reached reads refers rfl
    (fun _ => isPlain_of_involved (by decide)) recorded synthesized ends
  exact ⟨ends, enough (.inr (by decide))⟩

end FewerArguments

end Resolver

end CilRecovery
