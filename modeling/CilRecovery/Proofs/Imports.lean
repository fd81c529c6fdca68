import CilRecovery.Resolver.Query
import Mathlib.Order.Defs.Unbundled

/-!
Members that are imported while they are looked for. They are added behind those that are there.
The reference that a query ends in answers the query, so once it is imported the query finds it
again, and nothing that is imported later comes before it.
-/
namespace CilRecovery

namespace TypeRef

@[simp]
theorem sameName_self (ref : TypeRef) : ref.sameName ref = true := by
  induction ref with
  | top scope space name => simp [sameName]
  | nested outer scope space name ih => simp [sameName, ih]

/-- Types of one name are found alike. -/
theorem sameName_congr {first second : TypeRef} (same : first.sameName second = true)
    (other : TypeRef) : other.sameName first = other.sameName second := by
  induction other generalizing first second with
  | top scope space name =>
    cases first <;> cases second <;> simp_all [sameName]
  | nested outer scope space name ih =>
    cases first with
    | top _ _ _ => cases second <;> simp_all [sameName]
    | nested outer' _ space' name' =>
      cases second with
      | top _ _ _ => simp [sameName] at same
      | nested outer'' _ space'' name'' =>
        simp only [sameName, Bool.and_eq_true, beq_iff_eq] at same
        obtain ⟨⟨rfl, rfl⟩, outers⟩ := same
        rw [sameName, sameName, ih outers]

end TypeRef

namespace TypeSig

@[simp]
theorem sameDeclaring_self (sig : TypeSig) : sig.sameDeclaring sig = true := by
  rw [sameDeclaring]
  cases sig.typeRef? <;> simp

theorem compatible_of_isWildcard_left {a b : TypeSig} (wild : a.isWildcard = true) :
    a.compatible b = true := by
  unfold compatible
  simp [wild]

theorem compatible_of_isWildcard_right {a b : TypeSig} (wild : b.isWildcard = true) :
    a.compatible b = true := by
  unfold compatible
  simp [wild]

/-- A type and what is left of it once generic arguments are parameters again agree. -/
theorem compatible_generalize (methodArgs typeArgs : List TypeSig) (sig : TypeSig) :
    (sig.generalize methodArgs typeArgs).compatible sig = true ∧
      sig.compatible (sig.generalize methodArgs typeArgs) = true := by
  unfold generalize
  split
  · exact ⟨compatible_of_isWildcard_left rfl, compatible_of_isWildcard_right rfl⟩
  · split
    · exact ⟨compatible_of_isWildcard_left rfl, compatible_of_isWildcard_right rfl⟩
    · cases sig with
      | inst generic args =>
        exact ⟨compatible_of_isWildcard_left rfl, compatible_of_isWildcard_right rfl⟩
      | vector element =>
        simpa [compatible, isWildcard] using compatible_generalize methodArgs typeArgs element
      | pointer target =>
        simpa [compatible, isWildcard] using compatible_generalize methodArgs typeArgs target
      | byRef target =>
        simpa [compatible, isWildcard] using compatible_generalize methodArgs typeArgs target
      | array element rank =>
        simpa [compatible, isWildcard] using compatible_generalize methodArgs typeArgs element
      | _ => simp [compatible, isWildcard]

theorem length_generalizeAll (methodArgs typeArgs sigs : List TypeSig) :
    (generalizeAll methodArgs typeArgs sigs).length = sigs.length := by
  induction sigs with
  | nil => rfl
  | cons sig rest ih => simp [generalizeAll, ih]

theorem all_compatible_generalizeAll (methodArgs typeArgs sigs : List TypeSig) :
    (List.zipWith compatible sigs (generalizeAll methodArgs typeArgs sigs)).all id = true := by
  induction sigs with
  | nil => rfl
  | cons sig rest ih =>
    simp only [generalizeAll, List.zipWith_cons_cons, List.all_cons, ih, id_eq,
      (compatible_generalize methodArgs typeArgs sig).2, Bool.and_self]

end TypeSig

namespace MethodQuery

variable (query : MethodQuery)

/-- The signature that a description gives fits the description. -/
theorem accepts_synthesize : query.accepts query.name query.synthesize = true := by
  have described : query.explicitParams query.synthesize.params.length = query.params := by
    rw [explicitParams, synthesize, MethodSig.generalize, TypeSig.length_generalizeAll]
    cases query.params with
    | nil => rfl
    | cons first rest => simp
  have params : query.paramsMatch query.synthesize.params = true := by
    rw [paramsMatch, described]
    simp only [synthesize, MethodSig.generalize, TypeSig.length_generalizeAll, BEq.rfl,
      TypeSig.all_compatible_generalizeAll, Bool.and_self]
  have ret : query.synthesize.ret.compatible query.ret = true :=
    (TypeSig.compatible_generalize _ _ _).1
  rw [accepts, params, ret]
  simp [synthesize, MethodSig.generalize]

theorem name_of_accepts {name : String} {sig : MethodSig}
    (fits : query.accepts name sig = true) : name = query.name := by
  simp only [accepts, Bool.and_eq_true, beq_iff_eq] at fits
  exact fits.1.1.1.1

theorem accepts_of_findImported? {imported : List MethodRef} {sig : MethodSig}
    (found : query.findImported? imported = some sig) : query.accepts query.name sig = true := by
  obtain ⟨method, first, rfl⟩ := Option.map_eq_some_iff.mp found
  have answers := List.find?_some first
  rw [answeredBy, Bool.and_eq_true] at answers
  rw [← query.name_of_accepts answers.2]
  exact answers.2

theorem accepts_of_findDeclared? {definition : TypeDef} {sig : MethodSig}
    (found : query.findDeclared? definition = some sig) : query.accepts query.name sig = true := by
  obtain ⟨method, first, rfl⟩ := Option.map_eq_some_iff.mp found
  have fits := List.find?_some first
  rw [← query.name_of_accepts fits]
  exact fits

/-- What a query ends in answers the query. -/
theorem answeredBy_resolve (host : Host) : query.answeredBy (query.resolve host).1 = true := by
  have fits : query.accepts query.name (query.resolve host).1.sig = true := by
    rw [resolve]
    dsimp only
    cases found : (if query.isInternal host then (query.definition? host).bind query.findDeclared?
        else (query.findImported? host.importedMethods).or
          ((query.definition? host).bind query.findDeclared?)) with
    | none => exact query.accepts_synthesize
    | some sig =>
      rw [Option.getD_some]
      split at found
      · obtain ⟨definition, _, declared⟩ := Option.bind_eq_some_iff.mp found
        exact query.accepts_of_findDeclared? declared
      · rcases Option.or_eq_some_iff.mp found with imported | ⟨_, declared⟩
        · exact query.accepts_of_findImported? imported
        · obtain ⟨definition, _, declared⟩ := Option.bind_eq_some_iff.mp declared
          exact query.accepts_of_findDeclared? declared
  rw [answeredBy, Bool.and_eq_true]
  exact ⟨TypeSig.sameDeclaring_self _, fits⟩

end MethodQuery

namespace Host

/-- A field of a type that the module has a definition of. -/
def Knows (host : Host) (field : FieldRef) : Prop :=
  ∃ ref, field.declaring.typeRef? = some ref ∧ (host.findType? ref).isSome

/-- A module that differs from another in members imported since. Fields are imported from types
that it knows. -/
def Grows (before after : Host) : Prop :=
  ∃ methods fields, (∀ field ∈ fields, before.Knows field) ∧
    after = { before with
      importedMethods := before.importedMethods ++ methods
      importedFields := before.importedFields ++ fields }

instance : IsPreorder Host Grows where
  refl host := ⟨[], [], by simp, by simp⟩
  trans := by
    rintro first _ _ ⟨methods, fields, known, rfl⟩ ⟨others, more, known', rfl⟩
    refine ⟨methods ++ others, fields ++ more, fun field member => ?_, by simp⟩
    rcases List.mem_append.mp member with early | late
    · exact known field early
    · exact known' field late

/-- A module that differs from another in members imported and bodies replaced since. -/
def Follows (before after : Host) : Prop := Grows { before with replaced := after.replaced } after

instance : IsPreorder Host Follows where
  refl host := refl_of Grows host
  trans := by
    rintro first second third ⟨methods, fields, known, same⟩ later
    have now : Grows { first with replaced := third.replaced }
        { second with replaced := third.replaced } := ⟨methods, fields, known, by rw [same]⟩
    exact trans_of Grows now later

theorem Grows.follows {before after : Host} (grows : before.Grows after) : before.Follows after := by
  obtain ⟨methods, fields, known, rfl⟩ := grows
  exact ⟨methods, fields, known, rfl⟩

theorem Follows.types {before after : Host} (follows : before.Follows after) :
    after.types = before.types := by
  obtain ⟨methods, fields, known, same⟩ := follows
  rw [same]

theorem Follows.tokens {before after : Host} (follows : before.Follows after) :
    after.tokens = before.tokens := by
  obtain ⟨methods, fields, known, same⟩ := follows
  rw [same]

theorem Follows.findType? {before after : Host} (follows : before.Follows after) (ref : TypeRef) :
    after.findType? ref = before.findType? ref := by
  rw [Host.findType?, follows.types, Host.findType?]

theorem Follows.importedMethods {before after : Host} (follows : before.Follows after) :
    ∃ more, after.importedMethods = before.importedMethods ++ more := by
  obtain ⟨methods, fields, known, same⟩ := follows
  exact ⟨methods, by rw [same]⟩

theorem Follows.importedFields {before after : Host} (follows : before.Follows after) :
    ∃ more, (∀ field ∈ more, before.Knows field) ∧
      after.importedFields = before.importedFields ++ more := by
  obtain ⟨methods, fields, known, same⟩ := follows
  exact ⟨fields, known, by rw [same]⟩

theorem mem_addNew [DecidableEq α] (a : α) (list : List α) : a ∈ addNew a list := by
  rw [addNew]
  split
  · assumption
  · simp

theorem addNew_of_mem [DecidableEq α] {a : α} {list : List α} (member : a ∈ list) :
    addNew a list = list := if_pos member

theorem exists_addNew [DecidableEq α] (a : α) (list : List α) :
    ∃ more, addNew a list = list ++ more ∧ ∀ b ∈ more, b = a := by
  rw [addNew]
  split
  · exact ⟨[], by simp, by simp⟩
  · exact ⟨[a], rfl, by simp⟩

theorem grows_importMethod (host : Host) (method : MethodRef) :
    host.Grows (host.importMethod method) := by
  obtain ⟨more, added, _⟩ := exists_addNew method host.importedMethods
  exact ⟨more, [], by simp, by simp [importMethod, added]⟩

theorem grows_importField (host : Host) {field : FieldRef} (known : host.Knows field) :
    host.Grows (host.importField field) := by
  obtain ⟨more, added, only⟩ := exists_addNew field host.importedFields
  refine ⟨[], more, fun other member => ?_, by simp [importField, added]⟩
  rw [only other member]
  exact known

theorem grows_resolveField (host : Host) (declaring : TypeSig) (name : String) :
    host.Grows (host.resolveField declaring name).2 := by
  rw [resolveField]
  split
  · exact refl_of Grows host
  · rename_i ref named
    split
    · rename_i definition defined
      split
      · exact refl_of Grows host
      · dsimp only
        split
        · exact host.grows_importField ⟨ref, named, by rw [defined]; rfl⟩
        · exact refl_of Grows host
    · exact refl_of Grows host

/-- Fields imported since are none of a type that is not known. -/
theorem Follows.find?_importedFields {before after : Host} (follows : before.Follows after)
    {declaring : TypeSig} {ref : TypeRef} (named : declaring.typeRef? = some ref)
    (unknown : before.findType? ref = none) (name : String) :
    (after.importedFields.find? fun field =>
        field.name == name && field.declaring.sameDeclaring declaring) =
      before.importedFields.find? fun field =>
        field.name == name && field.declaring.sameDeclaring declaring := by
  obtain ⟨more, known, same⟩ := follows.importedFields
  have none : (more.find? fun field =>
      field.name == name && field.declaring.sameDeclaring declaring) = none := by
    rw [List.find?_eq_none]
    intro field member found
    obtain ⟨other, named', defined⟩ := known field member
    simp only [TypeSig.sameDeclaring, named, named', Bool.and_eq_true] at found
    have alike : before.findType? other = before.findType? ref := by
      simp only [Host.findType?, TypeRef.sameName_congr found.2]
    rw [alike, unknown] at defined
    cases defined
  rw [same, List.find?_append, none, Option.or_none]

/-- Which field is found does not depend on what was imported since. -/
theorem fst_resolveField_of_follows {before after : Host} (follows : before.Follows after)
    (declaring : TypeSig) (name : String) :
    (after.resolveField declaring name).1 = (before.resolveField declaring name).1 := by
  rw [resolveField, resolveField]
  cases named : declaring.typeRef? with
  | none => rfl
  | some ref =>
    simp only [follows.findType?]
    cases defined : before.findType? ref with
    | none => simp only [follows.find?_importedFields named defined]
    | some definition =>
      dsimp only
      cases definition.field? name with
      | none => rfl
      | some field => rfl

theorem snd_resolveField_of_follows {host after : Host} {declaring : TypeSig} {name : String}
    (follows : (host.resolveField declaring name).2.Follows after) :
    (after.resolveField declaring name).2 = after := by
  have whole := trans_of Follows (host.grows_resolveField declaring name).follows follows
  rw [resolveField] at follows ⊢
  cases named : declaring.typeRef? with
  | none => rfl
  | some ref =>
    simp only [named, whole.findType?] at follows ⊢
    cases defined : host.findType? ref with
    | none => rfl
    | some definition =>
      simp only [defined] at follows ⊢
      cases found : definition.field? name with
      | none => rfl
      | some field =>
        simp only [found] at follows ⊢
        split
        · rename_i isExternal
          rw [if_pos isExternal] at follows
          obtain ⟨more, _, same⟩ := follows.importedFields
          rw [importField, addNew_of_mem]
          rw [same]
          exact List.mem_append_left more (mem_addNew _ _)
        · rfl

/-- A field that was looked for is found again. -/
theorem resolveField_again {host after : Host} {declaring : TypeSig} {name : String}
    (follows : (host.resolveField declaring name).2.Follows after) :
    after.resolveField declaring name = ((host.resolveField declaring name).1, after) := by
  have whole := trans_of Follows (host.grows_resolveField declaring name).follows follows
  exact Prod.ext (fst_resolveField_of_follows whole _ _) (snd_resolveField_of_follows follows)

theorem importedMethods_resolveField (host : Host) (declaring : TypeSig) (name : String) :
    (host.resolveField declaring name).2.importedMethods = host.importedMethods := by
  rw [resolveField]
  split
  · rfl
  · split
    · split
      · rfl
      · dsimp only
        split <;> rfl
    · rfl

end Host

namespace MethodQuery

theorem grows_resolve (query : MethodQuery) (host : Host) :
    host.Grows (query.resolve host).2 := by
  simp only [resolve]
  split
  · exact refl_of Host.Grows host
  · exact host.grows_importMethod _

theorem definition?_of_follows (query : MethodQuery) {before after : Host}
    (follows : before.Follows after) : query.definition? after = query.definition? before := by
  rw [definition?, definition?]
  cases query.declaring.typeRef? with
  | none => rfl
  | some ref => exact follows.findType? ref

theorem isInternal_of_follows (query : MethodQuery) {before after : Host}
    (follows : before.Follows after) : query.isInternal after = query.isInternal before := by
  rw [isInternal, isInternal, query.definition?_of_follows follows]

theorem resolve_internal (query : MethodQuery) {host : Host}
    (isInternal : query.isInternal host = true) :
    query.resolve host =
      (⟨query.declaring, query.name,
        ((query.definition? host).bind query.findDeclared?).getD query.synthesize, query.args⟩,
        host) := by
  rw [resolve, isInternal]
  rfl

theorem fst_resolve_external (query : MethodQuery) {host : Host}
    (isExternal : query.isInternal host = false) :
    (query.resolve host).1 =
      ⟨query.declaring, query.name,
        ((query.findImported? host.importedMethods).or
          ((query.definition? host).bind query.findDeclared?)).getD query.synthesize,
        query.args⟩ := by
  simp only [resolve, isExternal, Bool.false_eq_true, if_false]

theorem snd_resolve_external (query : MethodQuery) {host : Host}
    (isExternal : query.isInternal host = false) :
    (query.resolve host).2 = host.importMethod (query.resolve host).1 := by
  simp only [resolve, isExternal, Bool.false_eq_true, if_false]

/-- A reference that a query ended in is the first to answer it from then on. -/
theorem findImported?_again (query : MethodQuery) {host : Host}
    (isExternal : query.isInternal host = false) (more : List MethodRef) :
    query.findImported? (addNew (query.resolve host).1 host.importedMethods ++ more) =
      some (query.resolve host).1.sig := by
  rw [findImported?]
  cases first : host.importedMethods.find? query.answeredBy with
  | some method =>
    obtain ⟨added, same, _⟩ := Host.exists_addNew (query.resolve host).1 host.importedMethods
    have found : query.findImported? host.importedMethods = some method.sig := by
      rw [findImported?, first]
      rfl
    rw [same, List.append_assoc, List.find?_append, first, fst_resolve_external query isExternal, found]
    rfl
  | none =>
    have absent : (query.resolve host).1 ∉ host.importedMethods := fun member =>
      List.find?_eq_none.mp first _ member (query.answeredBy_resolve host)
    rw [addNew, if_neg absent, List.append_assoc, List.find?_append, first, Option.none_or,
      List.singleton_append, List.find?_cons_of_pos (query.answeredBy_resolve host)]
    rfl

/-- A query that was answered is answered alike again. -/
theorem resolve_again (query : MethodQuery) {host after : Host}
    (follows : (query.resolve host).2.Follows after) :
    query.resolve after = ((query.resolve host).1, after) := by
  have whole := trans_of Host.Follows (query.grows_resolve host).follows follows
  have same := query.isInternal_of_follows whole
  cases isInternal : query.isInternal host with
  | true =>
    rw [resolve_internal query (same.trans isInternal), resolve_internal query isInternal,
      query.definition?_of_follows whole]
  | false =>
    have imported : (query.resolve host).2.importedMethods =
        addNew (query.resolve host).1 host.importedMethods := by
      rw [snd_resolve_external query isInternal]
      rfl
    obtain ⟨more, added⟩ := follows.importedMethods
    rw [imported] at added
    have method : (query.resolve after).1 = (query.resolve host).1 := by
      rw [fst_resolve_external query (same.trans isInternal), added,
        query.findImported?_again isInternal more, fst_resolve_external query isInternal]
      rfl
    have member : (query.resolve host).1 ∈ after.importedMethods := by
      rw [added]
      exact List.mem_append_left more (Host.mem_addNew _ _)
    have kept : (query.resolve after).2 = after := by
      rw [snd_resolve_external query (same.trans isInternal), method, Host.importMethod,
        Host.addNew_of_mem member]
    exact Prod.ext method kept

end MethodQuery

end CilRecovery
