import Mathlib.Data.List.Chain
import Mathlib.Data.List.Perm.Basic
import CilRecovery.Virtual.Layout

/-!
Discovery of header layouts. The code that reads a header stores what its readers return, one field
after the other, and the code that uses the header loads the declaring type last before the name.
From the two the order of the fields is found, whatever other instructions stand between.
-/
namespace CilRecovery

theorem FieldRef.sameMember_iff {a b : FieldRef} :
    a.sameMember b = true ↔ a.name = b.name ∧ a.declaring = b.declaring := by
  rw [sameMember, Bool.and_eq_true, beq_iff_eq, beq_iff_eq]

/-- Refers to a method that returns a flag. -/
def Instruction.mentionsFlag (instruction : Instruction) : Bool :=
  instruction.method?.any fun callee => callee.sig.ret == .primitive .boolean

/-- Calls a method that returns a flag. -/
def Instruction.callsFlag (instruction : Instruction) : Bool :=
  instruction.opcode.isCall && instruction.mentionsFlag

namespace HeaderLayout

/-- What header code is judged by. -/
structure Criteria where
  /-- The types that readers of lists may return. -/
  IsArray : TypeSig → Prop
  /-- The bodies that readers of locals may have. -/
  Flagless : List Instruction → Prop
  /-- The fields that are one and the same. -/
  Same : FieldRef → FieldRef → Prop

/-- Arrays have one dimension, readers of locals do not mention flags, and a field is known by its
declaring type and name. -/
def Criteria.exact : Criteria where
  IsArray sig := ∃ element, sig = .vector element
  Flagless body := body.any Instruction.mentionsFlag = false
  Same a b := a.name = b.name ∧ a.declaring = b.declaring

/-- Arrays have any number of dimensions, readers of locals do not call for flags, and a field is
known by its declaring type, its name and its type. -/
def Criteria.wide : Criteria where
  IsArray sig := (∃ element, sig = .vector element) ∨ ∃ element rank, sig = .array element rank
  Flagless body := body.any Instruction.callsFlag = false
  Same a b := a = b

/-- The methods that read a field of a header. -/
inductive ReaderFor (criteria : Criteria) (host : Host) : HeaderField → MethodRef → Prop
  | name {reader : MethodRef} (returns : reader.sig.ret = .primitive .string) :
      ReaderFor criteria host .name reader
  | bindingFlags {reader : MethodRef} (returns : reader.sig.ret = .primitive .u1) :
      ReaderFor criteria host .bindingFlags reader
  | returnType {reader : MethodRef} (returns : reader.sig.ret = .primitive .i4) :
      ReaderFor criteria host .returnType reader
  | declaringType {reader : MethodRef} (returns : reader.sig.ret = .primitive .i4) :
      ReaderFor criteria host .declaringType reader
  | parameters {reader : MethodRef} {body : List Instruction}
      (returns : criteria.IsArray reader.sig.ret) (defined : host.calleeBody? reader = some body)
      (calls : body.any Instruction.callsFlag = true) : ReaderFor criteria host .parameters reader
  | locals {reader : MethodRef} {body : List Instruction}
      (returns : criteria.IsArray reader.sig.ret) (defined : host.calleeBody? reader = some body)
      (flagless : criteria.Flagless body) : ReaderFor criteria host .locals reader

/-- A call, and a store of its result. -/
def IsStore (first second : Instruction) : Prop :=
  first.opcode.isCall = true ∧ first.method?.isSome = true ∧
    second.opcode = .stfld ∧ second.field?.isSome = true

/-- Instructions that store the result of no call. -/
def Idle (code : List Instruction) : Prop :=
  code.IsChain fun first second => ¬ IsStore first second

/-- The loads of a field, up to the fields that are the same. -/
def Criteria.Loads (criteria : Criteria) (field : FieldRef) (instruction : Instruction) : Prop :=
  instruction.opcode = .ldfld ∧ ∃ other, instruction.field? = some other ∧ criteria.Same other field

/-- Code that reads a header: for each field a call of its reader and a store of the result, with
other instructions before and after. -/
structure HeaderCode (criteria : Criteria) (host : Host) where
  reader : HeaderField → MethodRef
  target : HeaderField → FieldRef
  call : HeaderField → Instruction
  store : HeaderField → Instruction
  lead : List Instruction
  filler : HeaderField → List Instruction
  reads (field : HeaderField) : ReaderFor criteria host field (reader field)
  distinct {first second : HeaderField} (same : criteria.Same (target first) (target second)) :
    first = second
  isCall (field : HeaderField) : (call field).opcode.isCall = true
  callee (field : HeaderField) : (call field).method? = some (reader field)
  isStore (field : HeaderField) : (store field).opcode = .stfld
  stored (field : HeaderField) : (store field).field? = some (target field)
  lead_idle : Idle lead
  filler_idle (field : HeaderField) : Idle (filler field)

namespace HeaderCode

variable {criteria : Criteria} {host : Host}

/-- The instructions for one field, up to those for the next. -/
def part (code : HeaderCode criteria host) (field : HeaderField) : List Instruction :=
  code.call field :: code.store field :: code.filler field

/-- The fields are read in the order of a layout. -/
def body (code : HeaderCode criteria host) (layout : HeaderLayout) : List Instruction :=
  code.lead ++ layout.order.flatMap code.part

end HeaderCode

/-- Code that uses a header. Of the type positions, the declaring type is the last to be loaded
before the name is loaded for the first time, and `GetMethod` is mentioned afterwards. -/
structure HeaderUse {criteria : Criteria} {host : Host} (code : HeaderCode criteria host) where
  early : List Instruction
  declares : Instruction
  late : List Instruction
  names : Instruction
  rest : List Instruction
  loads_declaring : criteria.Loads (code.target .declaringType) declares
  loads_name : criteria.Loads (code.target .name) names
  nameless : ∀ instruction ∈ early ++ late, ¬ criteria.Loads (code.target .name) instruction
  last : ∀ instruction ∈ late, ¬ criteria.Loads (code.target .declaringType) instruction ∧
    ¬ criteria.Loads (code.target .returnType) instruction
  looksUp : ∃ instruction ∈ rest, ∃ method, instruction.method? = some method ∧
    method.name = "GetMethod"

def HeaderUse.body {criteria : Criteria} {host : Host} {code : HeaderCode criteria host}
    (use : HeaderUse code) : List Instruction :=
  use.early ++ use.declares :: use.late ++ use.names :: use.rest

variable {host : Host}

/-! ### Roles -/

/-- The role that a reader of a field shows. -/
def roleOf : HeaderField → ReaderRole
  | .returnType | .declaringType => .typePosition
  | field => .known field

theorem roleOf_eq_typePosition_iff {field : HeaderField} :
    roleOf field = .typePosition ↔ field = .returnType ∨ field = .declaringType := by
  cases field <;> decide

theorem roleOf_eq_name_iff {field : HeaderField} : roleOf field = .known .name ↔ field = .name := by
  cases field <;> decide

theorem any_mentionsFlag (body : List Instruction) :
    ((body.filterMap Instruction.method?).any fun callee => callee.sig.ret == .primitive .boolean) =
      body.any Instruction.mentionsFlag := by
  induction body with
  | nil => rfl
  | cons first rest ih =>
    rw [List.filterMap_cons, List.any_cons, ← ih, Instruction.mentionsFlag]
    cases first.method? <;> rfl

theorem any_mentionsFlag_of_callsFlag {body : List Instruction}
    (calls : body.any Instruction.callsFlag = true) :
    body.any Instruction.mentionsFlag = true := by
  obtain ⟨instruction, member, flag⟩ := List.any_eq_true.mp calls
  exact List.any_eq_true.mpr ⟨instruction, member, ((Bool.and_eq_true ..).mp flag).2⟩

/-- A reader of an array is judged by its body. -/
theorem readerRole_of_vector {reader : MethodRef} {element : TypeSig} {body : List Instruction}
    (returns : reader.sig.ret = .vector element) (defined : host.calleeBody? reader = some body) :
    readerRole host reader =
      .ok (.known (if body.any Instruction.mentionsFlag then .parameters else .locals)) := by
  simp only [readerRole, returns, defined, any_mentionsFlag]

theorem readerRole_of_readerFor {field : HeaderField} {reader : MethodRef}
    (reads : ReaderFor .exact host field reader) : readerRole host reader = .ok (roleOf field) := by
  cases reads with
  | name returns => simp only [readerRole, returns, roleOf]
  | bindingFlags returns => simp only [readerRole, returns, roleOf]
  | returnType returns => simp only [readerRole, returns, roleOf]
  | declaringType returns => simp only [readerRole, returns, roleOf]
  | parameters returns defined calls =>
    obtain ⟨element, returns⟩ := returns
    rw [readerRole_of_vector returns defined, any_mentionsFlag_of_callsFlag calls]
    rfl
  | @locals _ body returns defined flagless =>
    obtain ⟨element, returns⟩ := returns
    have flagless : body.any Instruction.mentionsFlag = false := flagless
    rw [readerRole_of_vector returns defined, flagless]
    rfl

/-! ### Stores -/

theorem stores_cons {first : Instruction} {code : List Instruction}
    (skipped : ∀ second ∈ code.head?, ¬ IsStore first second) :
    stores host (first :: code) = stores host code := by
  cases code with
  | nil => rfl
  | cons second rest =>
    have skipped := skipped second rfl
    rw [stores]
    split
    · rename_i reader field called stored
      rw [if_neg]
      simp only [IsStore, called, stored, Option.isSome_some, true_and, and_true] at skipped
      simpa using skipped
    · rfl

theorem stores_append {lead code : List Instruction} (idle : Idle lead)
    (opens : ∀ second ∈ code.head?, second.opcode ≠ .stfld) :
    stores host (lead ++ code) = stores host code := by
  -- The last instruction may be a call, so what follows must not begin with a store.
  induction lead with
  | nil => rfl
  | cons first rest ih =>
    have skipped : ∀ second ∈ (rest ++ code).head?, ¬ IsStore first second := by
      cases rest with
      | nil => exact fun second member store => opens second member store.2.2.1
      | cons next rest =>
        rintro second ⟨⟩
        exact (List.isChain_cons_cons.mp idle).1
    rw [List.cons_append, stores_cons skipped, ih idle.tail]

namespace HeaderCode

variable (code : HeaderCode .exact host)

theorem stores_part (field : HeaderField) (rest : List Instruction)
    (opens : ∀ second ∈ rest.head?, second.opcode ≠ .stfld) :
    stores host (code.part field ++ rest) = (do
      let more ← stores host rest
      return (code.target field, roleOf field) :: more) := by
  have passed : stores host (code.store field :: (code.filler field ++ rest)) =
      stores host rest := by
    rw [stores_cons, stores_append (code.filler_idle field) opens]
    rintro second - ⟨call, -⟩
    rw [code.isStore field] at call
    exact absurd call (by decide)
  have both : ((code.call field).opcode.isCall && (code.store field).opcode == .stfld) = true := by
    rw [code.isCall field, code.isStore field]
    rfl
  rw [part, List.cons_append, List.cons_append, stores]
  simp only [code.callee field, code.stored field, both, if_true, passed,
    readerRole_of_readerFor (code.reads field)]
  rfl

theorem opcode_head_ne (order : List HeaderField) :
    ∀ second ∈ (order.flatMap code.part).head?, second.opcode ≠ .stfld := by
  cases order with
  | nil => simp
  | cons field rest =>
    rintro second ⟨⟩ same
    have call := code.isCall field
    rw [same] at call
    exact absurd call (by decide)

/-- What is stored where some fields are read. -/
def entries (order : List HeaderField) : List (FieldRef × ReaderRole) :=
  order.map fun field => (code.target field, roleOf field)

/-- The fields of type positions among what is stored. -/
def positions (layout : HeaderLayout) : List FieldRef :=
  ((code.entries layout.order).filter fun store => store.2 == .typePosition).map Prod.fst

/-- The fields are stored in their order, each with the role of its reader. -/
theorem stores_parts (order : List HeaderField) :
    stores host (order.flatMap code.part) = .ok (code.entries order) := by
  induction order with
  | nil => rfl
  | cons field rest ih =>
    rw [List.flatMap_cons, code.stores_part field _ (code.opcode_head_ne rest), ih]
    rfl

theorem stores_body (layout : HeaderLayout) :
    stores host (code.body layout) = .ok (code.entries layout.order) := by
  rw [body, stores_append code.lead_idle (code.opcode_head_ne _), code.stores_parts]

theorem mem_positions (layout : HeaderLayout) {field : FieldRef} :
    field ∈ code.positions layout ↔
      field = code.target .returnType ∨ field = code.target .declaringType := by
  have listed (field : HeaderField) : field ∈ layout.order :=
    layout.isPerm.mem_iff.mpr (by cases field <;> decide)
  simp only [positions, entries, List.mem_map, List.mem_filter, beq_iff_eq]
  constructor
  · rintro ⟨-, ⟨⟨field, -, rfl⟩, position⟩, rfl⟩
    obtain rfl | rfl := roleOf_eq_typePosition_iff.mp position
    · exact .inl rfl
    · exact .inr rfl
  · rintro (rfl | rfl)
    · exact ⟨_, ⟨⟨.returnType, listed _, rfl⟩, rfl⟩, rfl⟩
    · exact ⟨_, ⟨⟨.declaringType, listed _, rfl⟩, rfl⟩, rfl⟩

theorem length_positions (layout : HeaderLayout) : (code.positions layout).length = 2 := by
  have default : (code.positions .default).length = 2 := rfl
  rw [← default]
  exact (((layout.isPerm.map _).filter _).map _).length_eq

theorem find_name (layout : HeaderLayout) :
    (code.entries layout.order).find? (fun store => store.2 == .known .name) =
      some (code.target .name, .known .name) := by
  have listed : .name ∈ layout.order := layout.isPerm.mem_iff.mpr (by decide)
  have only : layout.order.find? (fun field => roleOf field == .known .name) = some .name := by
    obtain ⟨field, found⟩ := Option.isSome_iff_exists.mp
      (List.find?_isSome.mpr ⟨.name, listed, rfl⟩ :
        (layout.order.find? fun field => roleOf field == .known .name).isSome = true)
    have same : field = .name := roleOf_eq_name_iff.mp (by simpa using List.find?_some found)
    rw [found, same]
  rw [entries, List.find?_map]
  exact congrArg (Option.map _) only

/-- Once the declaring type is known from the other type position, the fields stored are the
fields of the layout. -/
theorem entries_fields {declaring : FieldRef} (order : List HeaderField)
    (same : Criteria.exact.Same declaring (code.target .declaringType)) :
    ((code.entries order).map fun store =>
      match store.2 with
      | .known field => field
      | .typePosition =>
        if store.1.sameMember declaring then .declaringType else .returnType) = order := by
  have apart : (code.target .returnType).sameMember declaring = false := by
    refine Bool.eq_false_iff.mpr fun equal => ?_
    have equal := FieldRef.sameMember_iff.mp equal
    exact absurd (code.distinct ⟨equal.1.trans same.1, equal.2.trans same.2⟩) (by decide)
  have together : (code.target .declaringType).sameMember declaring = true :=
    FieldRef.sameMember_iff.mpr ⟨same.1.symm, same.2.symm⟩
  rw [entries, List.map_map]
  refine (List.map_congr_left fun field _ => ?_).trans (List.map_id order)
  cases field with
  | returnType => simp [roleOf, apart]
  | declaringType => simp [roleOf, together]
  | _ => rfl

end HeaderCode

/-! ### The declaring type -/

theorem loadsField_iff {field : FieldRef} {instruction : Instruction} :
    loadsField field instruction = true ↔ Criteria.exact.Loads field instruction := by
  rw [loadsField, Bool.and_eq_true, beq_iff_eq, Option.any_eq_true]
  simp only [FieldRef.sameMember_iff]
  rfl

namespace HeaderUse

variable {code : HeaderCode .exact host} (use : HeaderUse code)

theorem not_loadsField {instruction : Instruction}
    (before : instruction ∈ use.early ++ use.declares :: use.late) :
    loadsField (code.target .name) instruction = false := by
  refine Bool.eq_false_iff.mpr fun loads => ?_
  have loads := loadsField_iff.mp loads
  obtain early | rfl | late := by simpa using before
  · exact use.nameless _ (List.mem_append_left _ early) loads
  · obtain ⟨-, name, found, same⟩ := loads
    obtain ⟨-, declaring, also, other⟩ := use.loads_declaring
    obtain rfl := Option.some.inj (found.symm.trans also)
    exact absurd (code.distinct ⟨same.1.symm.trans other.1, same.2.symm.trans other.2⟩) (by decide)
  · exact use.nameless _ (List.mem_append_right _ late) loads

theorem takeWhile_body :
    use.body.takeWhile (fun instruction => !loadsField (code.target .name) instruction) =
      use.early ++ use.declares :: use.late := by
  have names : loadsField (code.target .name) use.names = true := loadsField_iff.mpr use.loads_name
  rw [body, List.takeWhile_append_of_pos fun instruction before => by
    rw [use.not_loadsField before, Bool.not_false], List.takeWhile_cons_of_neg (by simp [names]),
    List.append_nil]

theorem dropWhile_body :
    use.body.dropWhile (fun instruction => !loadsField (code.target .name) instruction) =
      use.names :: use.rest := by
  have names : loadsField (code.target .name) use.names = true := loadsField_iff.mpr use.loads_name
  rw [body, List.dropWhile_append_of_pos fun instruction before => by
    rw [use.not_loadsField before, Bool.not_false], List.dropWhile_cons_of_neg (by simp [names])]

/-- A load of a type position is a load of one of the two fields that hold one. -/
theorem loads_position_iff {layout : HeaderLayout} {instruction : Instruction} :
    (instruction.opcode == .ldfld) = true ∧ (instruction.field?.any fun field =>
        (code.positions layout).any fun position => position.sameMember field) = true ↔
      Criteria.exact.Loads (code.target .declaringType) instruction ∨
        Criteria.exact.Loads (code.target .returnType) instruction := by
  simp only [beq_iff_eq, Option.any_eq_true, List.any_eq_true, code.mem_positions,
    FieldRef.sameMember_iff, Criteria.Loads, Criteria.exact]
  constructor
  · rintro ⟨opcode, field, found, -, rfl | rfl, same⟩
    · exact .inr ⟨opcode, field, found, same.1.symm, same.2.symm⟩
    · exact .inl ⟨opcode, field, found, same.1.symm, same.2.symm⟩
  · rintro (⟨opcode, field, found, same⟩ | ⟨opcode, field, found, same⟩)
    · exact ⟨opcode, field, found, _, .inr rfl, same.1.symm, same.2.symm⟩
    · exact ⟨opcode, field, found, _, .inl rfl, same.1.symm, same.2.symm⟩

/-- Backwards from the name, the declaring type is loaded first. -/
theorem find_load (layout : HeaderLayout) :
    ((use.early ++ use.declares :: use.late).reverse.find? fun instruction =>
        decide ((instruction.opcode == .ldfld) = true ∧ (instruction.field?.any fun field =>
          (code.positions layout).any fun position => position.sameMember field) = true)) =
      some use.declares := by
  refine List.find?_eq_some_iff_append.mpr
    ⟨?_, use.late.reverse, use.early.reverse, by simp, fun instruction late => ?_⟩
  · exact decide_eq_true (loads_position_iff.mpr (.inl use.loads_declaring))
  · obtain ⟨declaring, returned⟩ := use.last instruction (List.mem_reverse.mp late)
    rw [Bool.not_eq_true', decide_eq_false_iff_not, loads_position_iff]
    exact not_or.mpr ⟨declaring, returned⟩

theorem looksUp_of_rest : ((use.names :: use.rest).filterMap Instruction.method?).any
    (fun method => method.name == "GetMethod") = true := by
  obtain ⟨instruction, member, method, found, name⟩ := use.looksUp
  exact List.any_eq_true.mpr ⟨method,
    List.mem_filterMap.mpr ⟨instruction, List.mem_cons_of_mem _ member, found⟩, by simp [name]⟩

/-- The declaring type is recognised where the header is used. -/
theorem declaringField_body (layout : HeaderLayout) :
    ∃ declaring, declaringField (code.positions layout) (code.target .name) use.body =
        .ok declaring ∧ Criteria.exact.Same declaring (code.target .declaringType) := by
  obtain ⟨opcode, declaring, found, same⟩ := use.loads_declaring
  refine ⟨declaring, ?_, same⟩
  rw [declaringField, takeWhile_body, dropWhile_body]
  simp only [List.isEmpty_cons, looksUp_of_rest, Bool.not_true, Bool.false_eq_true, if_false,
    List.find?_filterMap, List.find?_filter, find_load, Option.bind_some, found]

end HeaderUse

/-- Header code shows the order in which it reads the fields, whichever it is. -/
theorem discover_body {host : Host} (code : HeaderCode .exact host) (use : HeaderUse code)
    (layout : HeaderLayout) : discover host (code.body layout) use.body = .ok layout := by
  obtain ⟨declaring, found, same⟩ := use.declaringField_body layout
  have length := code.length_positions layout
  have accepted : ofOrder layout.order = .ok layout := dif_pos layout.isPerm
  have fields := code.entries_fields layout.order same
  simp only [HeaderCode.positions] at length found
  simp only [discover, code.stores_body, bind, Except.bind, length, ne_eq, not_true_eq_false,
    if_false, code.find_name, found]
  exact (congrArg ofOrder fields).trans accepted

namespace Sample

def streams : TypeSig := .named false (.top .local "" "Stream")

def header : TypeSig := .named false (.top .local "" "Header")

def readsFlag : MethodRef := ⟨streams, "ReadBoolean", { ret := .primitive .boolean }, []⟩

/-- The readers, with the type that the one of locals returns. -/
def reader (array : TypeSig) : HeaderField → MethodRef
  | .locals => ⟨streams, "ReadLocals", { ret := array }, []⟩
  | .parameters => ⟨streams, "ReadParameters", { ret := .vector (.primitive .i4) }, []⟩
  | .name => ⟨streams, "ReadString", { ret := .primitive .string }, []⟩
  | .returnType | .declaringType => ⟨streams, "ReadInt32", { ret := .primitive .i4 }, []⟩
  | .bindingFlags => ⟨streams, "ReadByte", { ret := .primitive .u1 }, []⟩

/-- A module with the readers of lists, one of which has a given body. -/
def readerHost (array : TypeSig) (body : List Instruction) : Host :=
  let parameters : List Instruction := [{ opcode := .call, operand := .method readsFlag }]
  let (_, known) := ({ name := "m" } : Host).defineMethod (reader array .locals) body
  (known.defineMethod (reader array .parameters) parameters).2

/-- The fields, each named for what is in it. -/
def target (field : HeaderField) : FieldRef := { declaring := header, name := field.label }

/-- Fields of which two have one name and different types. -/
def overloaded : HeaderField → FieldRef
  | .returnType => { target .returnType with name := "Type", type := some (.primitive .i4) }
  | .declaringType => { target .declaringType with name := "Type", type := some (.primitive .u4) }
  | field => target field

theorem reads_sample {criteria : Criteria} {array : TypeSig} {body : List Instruction}
    (vector : criteria.IsArray (.vector (.primitive .i4))) (isArray : criteria.IsArray array)
    (flagless : criteria.Flagless body)
    (locals : (readerHost array body).calleeBody? (reader array .locals) = some body)
    (parameters : ((readerHost array body).calleeBody? (reader array .parameters)).any
      fun code => code.any Instruction.callsFlag) (field : HeaderField) :
    ReaderFor criteria (readerHost array body) field (reader array field) := by
  cases field with
  | locals => exact .locals isArray locals flagless
  | parameters =>
    obtain ⟨code, defined, calls⟩ := (Option.any_eq_true ..).mp parameters
    exact .parameters vector defined calls
  | name => exact .name rfl
  | returnType => exact .returnType rfl
  | declaringType => exact .declaringType rfl
  | bindingFlags => exact .bindingFlags rfl

/-- Code that calls its readers at once one after the other. -/
def code {criteria : Criteria} {host : Host} (reader : HeaderField → MethodRef)
    (target : HeaderField → FieldRef)
    (reads : ∀ field, ReaderFor criteria host field (reader field))
    (distinct : ∀ {first second}, criteria.Same (target first) (target second) → first = second) :
    HeaderCode criteria host where
  reader := reader
  target := target
  call field := { opcode := .callvirt, operand := .method (reader field) }
  store field := { opcode := .stfld, operand := .field (target field) }
  lead := [{ opcode := .nop }]
  filler _ := [{ opcode := .ldarg0 }]
  reads := reads
  distinct := distinct
  isCall _ := rfl
  callee _ := rfl
  isStore _ := rfl
  stored _ := rfl
  lead_idle := List.isChain_singleton _
  filler_idle _ := List.isChain_singleton _

/-- Loads the declaring type and the name, and looks the method up. -/
def use {criteria : Criteria} {host : Host} (code : HeaderCode criteria host)
    (same : ∀ field, criteria.Same field field) : HeaderUse code where
  early := []
  declares := { opcode := .ldfld, operand := .field (code.target .declaringType) }
  late := []
  names := { opcode := .ldfld, operand := .field (code.target .name) }
  rest := [{ opcode := .callvirt, operand := .method ⟨streams, "GetMethod", { ret := .primitive .object }, []⟩ }]
  loads_declaring := ⟨rfl, _, rfl, same _⟩
  loads_name := ⟨rfl, _, rfl, same _⟩
  nameless := List.forall_mem_nil _
  last := List.forall_mem_nil _
  looksUp := ⟨_, List.mem_singleton_self _, _, rfl, rfl⟩

theorem label_injective {first second : HeaderField} (same : first.label = second.label) :
    first = second := by
  have back (field : HeaderField) : HeaderField.ofLabel? field.label = some field := by
    cases field <;> rfl
  exact Option.some.inj ((back first).symm.trans (same ▸ back second))

theorem overloaded_injective {first second : HeaderField}
    (same : overloaded first = overloaded second) : first = second := by
  cases first <;> cases second <;> first | rfl | exact absurd same (by decide)

def numbers : TypeSig := .vector (.primitive .i4)

/-- Readers and fields as they are told apart. -/
def distinct : HeaderCode .exact (readerHost numbers []) :=
  code (reader numbers) target
    (reads_sample ⟨_, rfl⟩ ⟨_, rfl⟩ rfl rfl rfl) fun same => label_injective same.1

theorem discover_distinct :
    discover (readerHost numbers []) (distinct.body .default)
        (use distinct fun _ => ⟨rfl, rfl⟩).body = .ok .default ∧
      discover (readerHost numbers []) (distinct.body ⟨HeaderField.all.reverse, List.reverse_perm _⟩)
        (use distinct fun _ => ⟨rfl, rfl⟩).body =
      .ok ⟨HeaderField.all.reverse, List.reverse_perm _⟩ :=
  ⟨discover_body .., discover_body ..⟩

def grid : TypeSig := .array (.primitive .i4) 2

/-- A reader of locals that returns an array of two dimensions. -/
def matrix : HeaderCode .wide (readerHost grid []) :=
  code (reader grid) target
    (reads_sample (.inl ⟨_, rfl⟩) (.inr ⟨_, _, rfl⟩) rfl rfl rfl)
    fun same => label_injective (congrArg FieldRef.name same)

/-- Loads the address of a method that returns a flag, which it does not call. -/
def mentioning : List Instruction := [{ opcode := .ldftn, operand := .method readsFlag }]

/-- A reader of locals that mentions a flag. -/
def mention : HeaderCode .wide (readerHost numbers mentioning) :=
  code (reader numbers) target
    (reads_sample (.inl ⟨_, rfl⟩) (.inl ⟨_, rfl⟩) rfl rfl rfl)
    fun same => label_injective (congrArg FieldRef.name same)

/-- Type positions in fields of one name. -/
def overload : HeaderCode .wide (readerHost numbers []) :=
  code (reader numbers) overloaded
    (reads_sample (.inl ⟨_, rfl⟩) (.inl ⟨_, rfl⟩) rfl rfl rfl) overloaded_injective

theorem discover_wide :
    discover (readerHost grid []) (matrix.body .default) (use matrix fun _ => rfl).body =
        .error (.bootstrap "Header reader ReadLocals returns unexpected System.Int32[,]") ∧
      discover (readerHost numbers mentioning) (mention.body .default)
        (use mention fun _ => rfl).body =
        .error (.bootstrap "Header layout lists Locals 0 times") ∧
      discover (readerHost numbers []) (overload.body .default) (use overload fun _ => rfl).body =
        .error (.bootstrap "Header layout lists ReturnType 0 times") := by
  refine ⟨?_, ?_, ?_⟩
  · rfl
  · rfl
  · rfl

end Sample

end HeaderLayout

end CilRecovery
