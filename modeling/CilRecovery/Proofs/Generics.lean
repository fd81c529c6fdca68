import CilRecovery.Proofs.Overloads

/-!
Generic parameters and their arguments. To instantiate a type is to put types in for the parameters
in it, to generalize it is to turn arguments back into parameters. Instantiating undoes
generalizing, so a reference that is put together from the types of a record stands for just these
types.
-/
namespace CilRecovery

namespace GenericParam

/-- The type that a generic parameter is. -/
def sig (param : GenericParam) : TypeSig :=
  if param.onMethod then .methodParam param.index else .typeParam param.index

variable (methodArgs typeArgs : List TypeSig)

/-- The arguments among which a parameter finds its own. -/
def argsFor (param : GenericParam) : List TypeSig :=
  if param.onMethod then methodArgs else typeArgs

/-- A parameter for which there is an argument. -/
def IsGiven (param : GenericParam) : Prop :=
  param.index < (param.argsFor methodArgs typeArgs).length

instance (param : GenericParam) : Decidable (param.IsGiven methodArgs typeArgs) :=
  inferInstanceAs (Decidable (_ < _))

/-- The argument of a parameter. A parameter without one stays. -/
def argument (param : GenericParam) : TypeSig :=
  (param.argsFor methodArgs typeArgs).getD param.index param.sig

variable {methodArgs typeArgs}

/-- There is still an argument if there are no fewer arguments of the method. -/
theorem IsGiven.mono {param : GenericParam} {others : List TypeSig}
    (given : param.IsGiven methodArgs typeArgs)
    (enough : param.onMethod = true → methodArgs.length ≤ others.length) :
    param.IsGiven others typeArgs := by
  unfold IsGiven argsFor at given ⊢
  by_cases onMethod : param.onMethod = true
  · simp only [onMethod, if_true] at given ⊢
    exact given.trans_le (enough onMethod)
  · simpa [onMethod] using given

end GenericParam

namespace TypeSig

/-- Induction over a type, with all arguments of an instantiation at hand. -/
@[elab_as_elim]
theorem inductionOn {motive : TypeSig → Prop} (sig : TypeSig)
    (primitive : ∀ kind, motive (primitive kind))
    (named : ∀ isValue ref, motive (named isValue ref))
    (typeParam : ∀ index, motive (typeParam index))
    (methodParam : ∀ index, motive (methodParam index))
    (inst : ∀ generic args, motive generic → (∀ arg ∈ args, motive arg) →
      motive (inst generic args))
    (vector : ∀ element, motive element → motive (vector element))
    (array : ∀ element rank, motive element → motive (array element rank))
    (pointer : ∀ target, motive target → motive (pointer target))
    (byRef : ∀ target, motive target → motive (byRef target)) : motive sig := by
  refine @TypeSig.rec motive (fun args => ∀ arg ∈ args, motive arg) primitive named typeParam
    methodParam inst vector array pointer byRef ?_ ?_ sig
  · simp
  · intro first rest now later
    simp [now]
    exact later

/-! ### Parameters in a type -/

mutual

/-- The generic parameters in a type, as they occur. -/
def generics : TypeSig → List GenericParam
  | primitive _ => []
  | named _ _ => []
  | typeParam index => [⟨index, false⟩]
  | methodParam index => [⟨index, true⟩]
  | inst generic args => generics generic ++ genericsAll args
  | vector element => generics element
  | array element _ => generics element
  | pointer target => generics target
  | byRef target => generics target

/-- The generic parameters in a list of types. -/
def genericsAll : List TypeSig → List GenericParam
  | [] => []
  | sig :: rest => generics sig ++ genericsAll rest

end

@[simp]
theorem genericsAll_eq (sigs : List TypeSig) : genericsAll sigs = sigs.flatMap generics := by
  induction sigs with
  | nil => rfl
  | cons sig rest ih => simp [genericsAll, ih]

/-! ### Instantiating -/

mutual

/-- Puts types in for the generic parameters in a type. -/
def instantiate (assign : GenericParam → TypeSig) : TypeSig → TypeSig
  | primitive kind => primitive kind
  | named isValue ref => named isValue ref
  | typeParam index => assign ⟨index, false⟩
  | methodParam index => assign ⟨index, true⟩
  | inst generic args => inst (instantiate assign generic) (instantiateAll assign args)
  | vector element => vector (instantiate assign element)
  | array element rank => array (instantiate assign element) rank
  | pointer target => pointer (instantiate assign target)
  | byRef target => byRef (instantiate assign target)

/-- Instantiates each type of a list. -/
def instantiateAll (assign : GenericParam → TypeSig) : List TypeSig → List TypeSig
  | [] => []
  | sig :: rest => instantiate assign sig :: instantiateAll assign rest

end

@[simp]
theorem instantiateAll_eq (assign : GenericParam → TypeSig) (sigs : List TypeSig) :
    instantiateAll assign sigs = sigs.map (instantiate assign) := by
  induction sigs with
  | nil => rfl
  | cons sig rest ih => simp [instantiateAll, ih]

/-- There is nothing to put in where a type has no parameters. -/
theorem instantiate_of_generics_eq_nil {sig : TypeSig} (assign : GenericParam → TypeSig)
    (closed : sig.generics = []) : sig.instantiate assign = sig := by
  induction sig using inductionOn with
  | primitive kind => rfl
  | named isValue ref => rfl
  | typeParam index => simp [generics] at closed
  | methodParam index => simp [generics] at closed
  | inst generic args ih each =>
    simp only [generics, genericsAll_eq, List.append_eq_nil_iff, List.flatMap_eq_nil_iff] at closed
    have kept : args.map (instantiate assign) = args.map id :=
      List.map_congr_left fun arg member => each arg member (closed.2 arg member)
    simp [instantiate, ih closed.1, kept]
  | vector element ih => simp [instantiate, ih closed]
  | array element rank ih => simp [instantiate, ih closed]
  | pointer target ih => simp [instantiate, ih closed]
  | byRef target ih => simp [instantiate, ih closed]

/-! ### Generalizing -/

section Generalize

variable {methodArgs typeArgs : List TypeSig}

theorem generalizeAll_eq (sigs : List TypeSig) :
    generalizeAll methodArgs typeArgs sigs = sigs.map (generalize methodArgs typeArgs) := by
  induction sigs with
  | nil => rfl
  | cons sig rest ih => simp [generalizeAll, ih]

/-- Induction over what generalizing does to a type: the whole of it is an argument, or it is kept,
or its parts are generalized. -/
theorem generalizeOn {motive : TypeSig → TypeSig → Prop} (sig : TypeSig)
    (methodArg : ∀ sig ∈ methodArgs, motive sig (methodParam (methodArgs.idxOf sig)))
    (typeArg : ∀ sig ∈ typeArgs, motive sig (typeParam (typeArgs.idxOf sig)))
    (kept : ∀ sig, motive sig sig)
    (inst : ∀ generic args, (∀ arg ∈ args, motive arg (arg.generalize methodArgs typeArgs)) →
      motive (inst generic args) (inst generic (args.map (generalize methodArgs typeArgs))))
    (vector : ∀ element, motive element (element.generalize methodArgs typeArgs) →
      motive (vector element) (vector (element.generalize methodArgs typeArgs)))
    (array : ∀ element rank, motive element (element.generalize methodArgs typeArgs) →
      motive (array element rank) (array (element.generalize methodArgs typeArgs) rank))
    (pointer : ∀ target, motive target (target.generalize methodArgs typeArgs) →
      motive (pointer target) (pointer (target.generalize methodArgs typeArgs)))
    (byRef : ∀ target, motive target (target.generalize methodArgs typeArgs) →
      motive (byRef target) (byRef (target.generalize methodArgs typeArgs))) :
    motive sig (sig.generalize methodArgs typeArgs) := by
  have whole {sig parts : TypeSig}
      (same : sig.generalize methodArgs typeArgs =
        if sig ∈ methodArgs then methodParam (methodArgs.idxOf sig)
        else if sig ∈ typeArgs then typeParam (typeArgs.idxOf sig) else parts)
      (inside : motive sig parts) : motive sig (sig.generalize methodArgs typeArgs) := by
    rw [same]
    split_ifs with onMethod onType
    · exact methodArg sig onMethod
    · exact typeArg sig onType
    · exact inside
  induction sig using inductionOn with
  | inst generic args _ each =>
    exact whole (by rw [generalize, generalizeAll_eq]) (inst generic args each)
  | vector element ih => exact whole (by rw [generalize]) (vector element ih)
  | array element rank ih => exact whole (by rw [generalize]) (array element rank ih)
  | pointer target ih => exact whole (by rw [generalize]) (pointer target ih)
  | byRef target ih => exact whole (by rw [generalize]) (byRef target ih)
  | _ => exact whole (by unfold generalize; rfl) (kept _)

/-- Instantiating undoes generalizing. -/
theorem instantiate_generalize {sig : TypeSig} (closed : sig.generics = []) :
    (sig.generalize methodArgs typeArgs).instantiate
      (GenericParam.argument methodArgs typeArgs) = sig := by
  revert closed
  apply generalizeOn (motive := fun sig result => sig.generics = [] →
    result.instantiate (GenericParam.argument methodArgs typeArgs) = sig) sig
  case methodArg =>
    intro sig member _
    have inside := List.idxOf_lt_length_of_mem member
    simp [instantiate, GenericParam.argument, GenericParam.argsFor, inside]
  case typeArg =>
    intro sig member _
    have inside := List.idxOf_lt_length_of_mem member
    simp [instantiate, GenericParam.argument, GenericParam.argsFor, inside]
  case kept => exact fun sig closed => instantiate_of_generics_eq_nil _ closed
  case inst =>
    intro generic args each closed
    simp only [generics, genericsAll_eq, List.append_eq_nil_iff, List.flatMap_eq_nil_iff] at closed
    have restored : (args.map (generalize methodArgs typeArgs)).map
        (instantiate (GenericParam.argument methodArgs typeArgs)) = args.map id := by
      rw [List.map_map]
      exact List.map_congr_left fun arg member => each arg member (closed.2 arg member)
    simp [instantiate, instantiate_of_generics_eq_nil _ closed.1, restored]
  case vector => exact fun element ih closed => congrArg vector (ih closed)
  case array => exact fun element rank ih closed => congrArg (array · rank) (ih closed)
  case pointer => exact fun target ih closed => congrArg pointer (ih closed)
  case byRef => exact fun target ih closed => congrArg byRef (ih closed)

/-- A parameter in a generalized type stands for an argument, or it was there before. -/
theorem of_mem_generics_generalize {sig : TypeSig} {param : GenericParam}
    (member : param ∈ (sig.generalize methodArgs typeArgs).generics) :
    param.IsGiven methodArgs typeArgs ∨ param ∈ sig.generics := by
  revert member
  apply generalizeOn (motive := fun sig result => param ∈ result.generics →
    param.IsGiven methodArgs typeArgs ∨ param ∈ sig.generics) sig
  case methodArg =>
    intro sig member is
    cases List.mem_singleton.mp is
    exact .inl (List.idxOf_lt_length_of_mem member)
  case typeArg =>
    intro sig member is
    cases List.mem_singleton.mp is
    exact .inl (List.idxOf_lt_length_of_mem member)
  case kept => exact fun sig is => .inr is
  case inst =>
    intro generic args each is
    simp only [generics, genericsAll_eq, List.mem_append, List.mem_flatMap, List.mem_map] at is ⊢
    rcases is with is | ⟨_, ⟨arg, there, rfl⟩, is⟩
    · exact .inr (.inl is)
    · exact (each arg there is).imp_right fun was => .inr ⟨arg, there, was⟩
  case vector => exact fun element ih => ih
  case array => exact fun element rank ih => ih
  case pointer => exact fun target ih => ih
  case byRef => exact fun target ih => ih

/-- A parameter in a type is still there once the type is generalized over types without
parameters. -/
theorem mem_generics_generalize {sig : TypeSig} {param : GenericParam}
    (methods : ∀ arg ∈ methodArgs, arg.generics = []) (types : ∀ arg ∈ typeArgs, arg.generics = [])
    (member : param ∈ sig.generics) : param ∈ (sig.generalize methodArgs typeArgs).generics := by
  revert member
  apply generalizeOn (motive := fun sig result => param ∈ sig.generics → param ∈ result.generics) sig
  case methodArg =>
    intro sig member is
    rw [methods sig member] at is
    cases is
  case typeArg =>
    intro sig member is
    rw [types sig member] at is
    cases is
  case kept => exact fun sig is => is
  case inst =>
    intro generic args each is
    simp only [generics, genericsAll_eq, List.mem_append, List.mem_flatMap, List.mem_map] at is ⊢
    rcases is with is | ⟨arg, there, is⟩
    · exact .inl is
    · exact .inr ⟨_, ⟨arg, there, rfl⟩, each arg there is⟩
  case vector => exact fun element ih => ih
  case array => exact fun element rank ih => ih
  case pointer => exact fun target ih => ih
  case byRef => exact fun target ih => ih

end Generalize

end TypeSig

/-! ### References -/

/-- The generic parameters in the types of a signature. -/
def MethodSig.generics (sig : MethodSig) : List GenericParam :=
  sig.ret.generics ++ TypeSig.genericsAll sig.params

/-- The signature of a reference with its generic arguments put in. -/
def MethodRef.instantiated (method : MethodRef) : MethodSig :=
  let assign := GenericParam.argument method.genericArgs method.declaring.genericArgs
  { method.sig with
    ret := method.sig.ret.instantiate assign
    params := TypeSig.instantiateAll assign method.sig.params }

section Signatures

variable {methodArgs typeArgs : List TypeSig} {sig : MethodSig} {param : GenericParam}

theorem MethodSig.mem_generics :
    param ∈ sig.generics ↔ param ∈ sig.ret.generics ∨ ∃ type ∈ sig.params, param ∈ type.generics := by
  simp [generics]

theorem MethodSig.of_mem_generics_generalize
    (member : param ∈ (sig.generalize methodArgs typeArgs).generics) :
    param.IsGiven methodArgs typeArgs ∨ param ∈ sig.generics := by
  simp only [mem_generics, generalize, TypeSig.generalizeAll_eq, List.mem_map] at member ⊢
  rcases member with is | ⟨_, ⟨type, there, rfl⟩, is⟩
  · exact (TypeSig.of_mem_generics_generalize is).imp_right .inl
  · exact (TypeSig.of_mem_generics_generalize is).imp_right fun was => .inr ⟨type, there, was⟩

theorem MethodSig.mem_generics_generalize (methods : ∀ arg ∈ methodArgs, arg.generics = [])
    (types : ∀ arg ∈ typeArgs, arg.generics = []) (member : param ∈ sig.generics) :
    param ∈ (sig.generalize methodArgs typeArgs).generics := by
  simp only [mem_generics, generalize, TypeSig.generalizeAll_eq, List.mem_map] at member ⊢
  rcases member with is | ⟨type, there, is⟩
  · exact .inl (TypeSig.mem_generics_generalize methods types is)
  · exact .inr ⟨_, ⟨type, there, rfl⟩, TypeSig.mem_generics_generalize methods types is⟩

end Signatures

namespace MethodQuery

variable {query : MethodQuery}

/-- The reference that is put together from a description. -/
def synthesized (query : MethodQuery) : MethodRef :=
  ⟨query.declaring, query.name, query.synthesize, query.args⟩

/-- A parameter in a signature that is put together stands for an argument. -/
theorem isGiven_of_mem_synthesize (closed : query.signature.generics = []) {param : GenericParam}
    (member : param ∈ query.synthesize.generics) :
    param.IsGiven query.args query.declaring.genericArgs := by
  rcases MethodSig.of_mem_generics_generalize member with given | was
  · exact given
  · have none : param ∈ query.signature.generics := was
    rw [closed] at none
    cases none

/-- A reference that is put together stands for the types that are described. -/
theorem instantiated_synthesized (closed : query.signature.generics = []) :
    query.synthesized.instantiated = query.signature := by
  simp only [MethodSig.generics, signature, TypeSig.genericsAll_eq, List.append_eq_nil_iff,
    List.flatMap_eq_nil_iff] at closed
  have ret : (query.ret.generalize query.args query.declaring.genericArgs).instantiate
      (GenericParam.argument query.args query.declaring.genericArgs) = query.ret :=
    TypeSig.instantiate_generalize closed.1
  have params : (query.params.map (TypeSig.generalize query.args query.declaring.genericArgs)).map
      (TypeSig.instantiate (GenericParam.argument query.args query.declaring.genericArgs)) =
        query.params.map id := by
    rw [List.map_map]
    exact List.map_congr_left fun param member =>
      TypeSig.instantiate_generalize (closed.2 param member)
  simp [MethodRef.instantiated, synthesized, synthesize, MethodSig.generalize, signature, ret,
    TypeSig.generalizeAll_eq, params]

end MethodQuery

/-- Generalizing loses nothing. Of a type without generic parameters, the generalized type has
parameters only for which there are arguments, and with the arguments put in it is the type again.
So a reference that is put together from such types stands for just these types. -/
theorem TypeSig.generalize_lossless :
    (∀ (methodArgs typeArgs : List TypeSig) (sig : TypeSig), sig.generics = [] →
      (sig.generalize methodArgs typeArgs).instantiate
          (GenericParam.argument methodArgs typeArgs) = sig ∧
        ∀ param ∈ (sig.generalize methodArgs typeArgs).generics,
          param.IsGiven methodArgs typeArgs) ∧
    ∀ query : MethodQuery, query.signature.generics = [] →
      query.synthesized.instantiated = query.signature ∧
        ∀ param ∈ query.synthesized.sig.generics,
          param.IsGiven query.synthesized.genericArgs query.synthesized.declaring.genericArgs := by
  constructor
  · intro methodArgs typeArgs sig closed
    refine ⟨instantiate_generalize closed, fun param member => ?_⟩
    rcases of_mem_generics_generalize member with given | was
    · exact given
    · rw [closed] at was
      cases was
  · intro query closed
    exact ⟨query.instantiated_synthesized closed, fun param member =>
      query.isGiven_of_mem_synthesize closed member⟩

namespace NestedArguments

def list (element : TypeSig) : TypeSig := .inst (.named false (.top .local "" "List")) [element]

/-- The second argument occurs in the first. -/
def methodArgs : List TypeSig := [list .i4, .i4]

/-- The first argument is one of the method too. -/
def typeArgs : List TypeSig := [.i4, .vector .i4]

def sig : TypeSig :=
  .array (.inst (.named false (.top .local "" "Map")) [.vector .i4, list (list .i4), .byRef .i4]) 2

def query : MethodQuery :=
  ⟨.inst (.named false (.top .local "" "Map")) typeArgs, "find", false, sig, [list .i4, .i4],
    methodArgs⟩

/-- An argument that is found as a whole is not looked into. -/
theorem generalize_lossless_nested :
    sig.generics = [] ∧ query.signature.generics = [] ∧
    sig.generalize methodArgs typeArgs =
      .array (.inst (.named false (.top .local "" "Map"))
        [.typeParam 1, list (.methodParam 0), .byRef (.methodParam 1)]) 2 ∧
    (sig.generalize methodArgs typeArgs).instantiate
      (GenericParam.argument methodArgs typeArgs) = sig ∧
    query.synthesized.instantiated = query.signature := by
  have closed : sig.generics = [] := by decide
  have described : query.signature.generics = [] := by decide
  obtain ⟨types, queries⟩ := TypeSig.generalize_lossless
  exact ⟨closed, described, by decide, (types methodArgs typeArgs sig closed).1,
    (queries query described).1⟩

end NestedArguments

end CilRecovery
