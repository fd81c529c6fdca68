import CilRecovery.Proofs.Encodings
import CilRecovery.Virtual.Catalog

/-!
What handlers stand for does not depend on how their operations are encoded, as far as the table of
templates names classes. It names one opcode with other encodings, the zero of a negated comparison.
-/
namespace CilRecovery

namespace HandlerTable

/-- The runs of opcodes by which helpers negate a comparison. -/
def negations : List (List OpCode) :=
  (compareBranches.map Prod.snd).filter fun opcodes => opcodes.contains .ldcI40

end HandlerTable

/-- Whether a signature asks for such a run. -/
def Signature.isNegation : Signature → Bool
  | .mk _ symbols .window .always =>
    HandlerTable.negations.any fun opcodes => symbols == opcodes.map Symbol.op
  | _ => false

mutual

/-- Whether a signature does not tell encodings of one operation apart, negations aside. -/
def Signature.isLoose : Signature → Bool
  | .mk _ symbols _ check => symbols.all Symbol.isLoose && check.isLoose

def Check.isLoose : Check → Bool
  | .call _ callee => callee.isLoose
  | .operands calls _ _ _ => Callee.areLoose calls
  | _ => true

def Callee.isLoose : Callee → Bool
  | .body signature => signature.isLoose || signature.isNegation
  | _ => true

def Callee.areLoose : List Callee → Bool
  | [] => true
  | callee :: rest => callee.isLoose && Callee.areLoose rest

end

theorem HandlerTable.isLoose_of_mem {rule : HandlerRule} (mem : rule ∈ rules) :
    rule.signature.isLoose = true := by
  have all : rules.all (fun rule => rule.signature.isLoose) = true := by decide +kernel
  exact List.all_eq_true.mp all rule mem

namespace Signature

theorem hasShape_of_interchanged {signature : Signature} {window window' : List Instruction}
    (loose : signature.symbols.all Symbol.isLoose = true) (same : Interchanged window window') :
    signature.hasShape window = signature.hasShape window' := by
  have accepted (symbols : List Symbol) (loose : symbols.all Symbol.isLoose = true) :
      List.zipWith Symbol.accepts symbols window = List.zipWith Symbol.accepts symbols window' := by
    induction same generalizing symbols with
    | nil => rfl
    | cons first rest ih =>
      cases symbols with
      | nil => rfl
      | cons symbol symbols =>
        obtain ⟨loose, looseRest⟩ := Bool.and_eq_true_iff.mp loose
        rw [List.zipWith_cons_cons, List.zipWith_cons_cons,
          Symbol.accepts_of_interchanges loose first, ih symbols looseRest]
  rw [hasShape, hasShape, same.length_eq, accepted _ loose]

theorem firstWindow?_of_interchanged {passes passes' : List Instruction → Bool} {width : Nat}
    {body body' : List Instruction} (same : Interchanged body body')
    (agree : ∀ window window', Interchanged window window' → passes window = passes' window')
    (start : Nat) :
    firstWindow? passes width start body = firstWindow? passes' width start body' := by
  induction same generalizing start with
  | nil => rfl
  | cons first rest ih =>
    rw [firstWindow?, firstWindow?, agree _ _ (List.forall₂_take width (.cons first rest)), ih]

/-- A loose signature is found at the same place in interchangeable code. -/
theorem findWith?_of_interchanged {signature : Signature} {verify verify' : List Instruction → Bool}
    {body body' : List Instruction} (loose : signature.symbols.all Symbol.isLoose = true)
    (same : Interchanged body body')
    (agree : ∀ window window', Interchanged window window' → verify window = verify' window') :
    signature.findWith? verify body = signature.findWith? verify' body' := by
  have passes (window window' : List Instruction) (same : Interchanged window window') :
      (signature.hasShape window && verify window) =
        (signature.hasShape window' && verify' window') := by
    rw [hasShape_of_interchanged loose same, agree window window' same]
  rw [findWith?, findWith?]
  cases signature.mode with
  | contiguous =>
    simp only [passes body body' same, same.length_eq]
  | window =>
    dsimp only
    rw [firstWindow?_of_interchanged same passes]

/-- A shape of single opcodes fits where they stand in order. -/
theorem hasShape_take (name : String) (mode : MatchMode) (check : Check) (opcodes : List OpCode)
    (code : List Instruction) :
    (Signature.mk name (opcodes.map .op) mode check).hasShape (code.take opcodes.length) =
      opcodes.isPrefixOf (code.map Instruction.opcode) := by
  rw [hasShape]
  induction opcodes generalizing code with
  | nil => simp [symbols]
  | cons opcode opcodes ih =>
    cases code with
    | nil => simp [symbols]
    | cons instruction code =>
      have rest := ih code
      simp only [symbols, List.map_cons, List.length_cons, List.take_succ_cons,
        List.zipWith_cons_cons, List.all_cons, List.isPrefixOf_cons_cons, id] at rest ⊢
      rw [← rest, Symbol.accepts, Bool.and_left_comm, BEq.comm]
      simp

/-- A helper is found where its opcodes stand in order. -/
theorem isSome_findWith?_opcodes (name : String) (check : Check) (opcodes : List OpCode)
    (body : List Instruction) :
    ((Signature.mk name (opcodes.map .op) .window check).findWith? (fun _ => true) body).isSome =
      containsSequence opcodes body := by
  cases opcodes with
  | nil =>
    have none_ (body : List Instruction) : containsSequence [] body = false := by
      induction body with
      | nil => rfl
      | cons instruction rest ih => rw [containsSequence, ih]; rfl
    rw [none_]
    rfl
  | cons opcode opcodes =>
    have first (start : Nat) : (firstWindow? (fun window =>
        (Signature.mk name ((opcode :: opcodes).map .op) .window check).hasShape window && true)
          (opcode :: opcodes).length start body).isSome =
            containsSequence (opcode :: opcodes) body := by
      induction body generalizing start with
      | nil => rfl
      | cons instruction rest ih =>
        rw [firstWindow?, containsSequence, ← ih (start + 1), hasShape_take, Bool.and_true]
        cases (opcode :: opcodes).isPrefixOf ((instruction :: rest).map Instruction.opcode) <;> rfl
    have length : ((opcode :: opcodes).map Symbol.op).length = (opcode :: opcodes).length :=
      List.length_map _
    rw [← first 0, ← length]
    rfl

end Signature

namespace Check

variable {anchors : Anchors} {test test' : CalleeTest} {window window' : List Instruction}

/-- Tests that agree on signatures which do not tell encodings apart, negations aside. -/
def Agree (test test' : CalleeTest) : Prop :=
  ∀ method signature, signature.isLoose = true ∨ signature.isNegation = true →
    test method signature = test' method signature

theorem accepts_of_agree (agree : Agree test test') {callee : Callee}
    (loose : callee.isLoose = true) (method : MethodRef) :
    callee.accepts anchors test method = callee.accepts anchors test' method := by
  cases callee with
  | body signature => exact agree method signature (Bool.or_eq_true_iff.mp loose)
  | _ => rfl

/-- What an operand that is no method, type or field is held against. -/
theorem operandsHold_cons {instruction : Instruction} {operation : Operation}
    (is : instruction.Encodes operation) (calls : List Callee) (types : List TypeCheck)
    (fields : List FieldCheck) (constants : List Int32) :
    operandsHold anchors test calls types fields constants (instruction :: window) =
      match operation.constant?, constants with
      | some value, expected :: constants =>
        value == expected && operandsHold anchors test calls types fields constants window
      | some _, [] => false
      | none, constants => operandsHold anchors test calls types fields constants window := by
  obtain ⟨_, constant, method, field, type⟩ := is
  rw [operandsHold, ← constant]
  obtain ⟨opcode, operand, offset⟩ := instruction
  cases operand with
  | method ref => cases method
  | field ref => cases field
  | type sig => cases type
  | _ =>
    dsimp only
    cases Instruction.i4Constant? _ with
    | none => rfl
    | some value => cases constants <;> rfl

theorem operandsHold_of_interchanged (agree : Agree test test') {calls : List Callee}
    (loose : Callee.areLoose calls = true) (types : List TypeCheck) (fields : List FieldCheck)
    (constants : List Int32) (same : Interchanged window window') :
    operandsHold anchors test calls types fields constants window =
      operandsHold anchors test' calls types fields constants window' := by
  induction same generalizing calls types fields constants with
  | nil => rfl
  | @cons one other rest rest' first same ih =>
    rcases first.cases with rfl | ⟨operation, now, then_⟩
    · rw [operandsHold, operandsHold]
      obtain ⟨opcode, operand, offset⟩ := one
      cases operand with
      | method method =>
        cases calls with
        | nil => rfl
        | cons callee calls =>
          obtain ⟨loose, looseRest⟩ := Bool.and_eq_true_iff.mp loose
          dsimp only
          rw [accepts_of_agree agree loose, ih looseRest]
      | type sig =>
        cases types with
        | nil => rfl
        | cons expected types =>
          dsimp only
          rw [ih loose]
      | field field =>
        cases fields with
        | nil => rfl
        | cons expected fields =>
          dsimp only
          rw [ih loose]
      | _ =>
        dsimp only
        cases Instruction.i4Constant? _ with
        | none => exact ih loose types fields constants
        | some value =>
          cases constants with
          | nil => rfl
          | cons expected constants =>
            dsimp only
            rw [ih loose]
    · rw [operandsHold_cons now, operandsHold_cons then_]
      split
      · rw [ih loose]
      · rfl
      · exact ih loose _ _ _

theorem methodAt_of_interchanged {passes passes' : MethodRef → Bool}
    (same : Interchanged window window') (index : Nat)
    (agree : ∀ method, passes method = passes' method) :
    methodAt window index passes = methodAt window' index passes' := by
  rw [methodAt, methodAt, same.bind_getElem? Instruction.Interchanges.method?, funext agree]

/-- A check holds alike for interchangeable code. -/
theorem holds_of_interchanged (agree : Agree test test') {signature : Signature} {check : Check}
    (loose : signature.isLoose = true) (looseCheck : check.isLoose = true) (depth : Nat)
    (same : Interchanged window window') :
    check.holds anchors depth test signature window =
      check.holds anchors depth test' signature window' := by
  have again (method : MethodRef) : test method signature = test' method signature :=
    agree method signature (.inl loose)
  cases check with
  | always => rfl
  | constant index value =>
    rw [holds, holds, same.bind_getElem? Instruction.Interchanges.i4Constant?]
  | call index callee =>
    exact methodAt_of_interchanged same index (accepts_of_agree agree looseCheck)
  | again index => exact methodAt_of_interchanged same index again
  | depthAtLeast limit =>
    rw [holds, holds, methodAt_of_interchanged same 0 again]
  | operands calls types fields constants =>
    exact operandsHold_of_interchanged agree looseCheck types fields constants same

end Check

namespace Signature

/-- A loose signature is found at the same place in interchangeable code, checks included. -/
theorem findWith?_of_loose {signature : Signature} {test test' : CalleeTest}
    {body body' : List Instruction} (loose : signature.isLoose = true)
    (agree : Check.Agree test test') (same : Interchanged body body') (anchors : Anchors)
    (depth : Nat) :
    signature.findWith? (signature.check.holds anchors depth test signature) body =
      signature.findWith? (signature.check.holds anchors depth test' signature) body' := by
  obtain ⟨name, symbols, mode, check⟩ := signature
  obtain ⟨looseSymbols, looseCheck⟩ := Bool.and_eq_true_iff.mp loose
  exact findWith?_of_interchanged looseSymbols same fun window window' same =>
    Check.holds_of_interchanged agree loose looseCheck depth same

/-- A negation is found where its opcodes stand in order, whatever the checks. -/
theorem isSome_findWith?_negation {signature : Signature} (is : signature.isNegation = true)
    (anchors : Anchors) (depth : Nat) :
    ∃ opcodes ∈ HandlerTable.negations, ∀ test body,
      (signature.findWith? (signature.check.holds anchors depth test signature) body).isSome =
        containsSequence opcodes body := by
  rw [isNegation.eq_def] at is
  split at is
  · rename_i name symbols
    obtain ⟨opcodes, mem, asked⟩ := List.any_eq_true.mp is
    cases eq_of_beq asked
    exact ⟨opcodes, mem, fun test body => isSome_findWith?_opcodes name .always opcodes body⟩
  · cases is

end Signature

/-- Modules that differ only in how operations are encoded in the bodies of their methods. -/
structure Host.Interchanges (host host' : Host) : Prop where
  methodTokens : host'.methodTokens = host.methodTokens
  bodies : ∀ token, Option.Rel Interchanged (host.methodBody? token) (host'.methodBody? token)

/-- Modules whose methods negate comparisons alike. -/
def Host.NegatesAlike (host host' : Host) : Prop :=
  ∀ opcodes ∈ HandlerTable.negations, ∀ token,
    (host.methodBody? token).map (containsSequence opcodes) =
      (host'.methodBody? token).map (containsSequence opcodes)

/-- Tables with the same keys and related values are related at each key. -/
theorem Table.rel_get? [DecidableEq Key] {related : Value → Value' → Prop} {table : Table Key Value}
    {table' : Table Key Value'}
    (entries : List.Forall₂ (fun one other => other.1 = one.1 ∧ related one.2 other.2)
      table.entries table'.entries) (key : Key) :
    Option.Rel related (table.get? key) (table'.get? key) := by
  rw [get?, get?]
  generalize table.entries = listed at entries
  generalize table'.entries = listed' at entries
  induction entries with
  | nil => exact .none
  | @cons one other _ _ first rest ih =>
    obtain ⟨listed, value⟩ := one
    obtain ⟨listed', value'⟩ := other
    obtain ⟨rfl, values⟩ := first
    rw [List.lookup_cons, List.lookup_cons]
    cases key == listed' with
    | true => exact .some values
    | false => exact ih

/-- Modules negate alike if the methods that they list do. -/
theorem Host.negatesAlike_of_entries {host host' : Host}
    (entries : ∀ opcodes ∈ HandlerTable.negations, List.Forall₂ (fun one other =>
      other.1 = one.1 ∧ containsSequence opcodes one.2 = containsSequence opcodes other.2)
        host.bodies.entries host'.bodies.entries) : host.NegatesAlike host' := by
  intro opcodes mem token
  have related : Option.Rel
      (fun body body' => containsSequence opcodes body = containsSequence opcodes body')
      (host.methodBody? token) (host'.methodBody? token) :=
    Table.rel_get? (entries opcodes mem) token
  generalize host.methodBody? token = found at related
  generalize host'.methodBody? token = found' at related
  cases related with
  | none => rfl
  | some same => exact congrArg some same

namespace MatchContext

variable {host host' : Host} {anchors : Anchors}

/-- What checks find in the bodies of methods does not depend on how operations are encoded. -/
theorem calleeMatches_of_interchanges (same : host.Interchanges host')
    (alike : host.NegatesAlike host') (remaining : Nat) :
    Check.Agree (calleeMatches ⟨host, anchors⟩ remaining)
      (calleeMatches ⟨host', anchors⟩ remaining) := by
  induction remaining with
  | zero => exact fun _ _ _ => rfl
  | succ remaining ih =>
    intro method signature loose
    rw [calleeMatches, calleeMatches]
    dsimp only
    rw [Host.calleeBody?, Host.calleeBody?, Host.methodToken?, Host.methodToken?, same.methodTokens]
    cases host.methodTokens.get? method with
    | none => rfl
    | some token =>
      have related := same.bodies token
      have negated := fun opcodes mem => alike opcodes mem token
      rw [Option.bind_some, Option.bind_some]
      generalize host.methodBody? token = found at related negated
      generalize host'.methodBody? token = found' at related negated
      cases related with
      | none => rfl
      | @some body body' code =>
        dsimp only
        rcases loose with loose | negation
        · rw [Signature.findWith?_of_loose loose ih code]
        · obtain ⟨opcodes, mem, sought⟩ :=
            Signature.isSome_findWith?_negation negation anchors (maxDepth - remaining)
          rw [sought, sought]
          exact Option.some.inj (negated opcodes mem)

theorem find?_of_interchanges (same : host.Interchanges host') (alike : host.NegatesAlike host')
    {body body' : List Instruction} (code : Interchanged body body') {signature : Signature}
    (loose : signature.isLoose = true) :
    find? ⟨host, anchors⟩ signature body = find? ⟨host', anchors⟩ signature body' :=
  Signature.findWith?_of_loose loose (calleeMatches_of_interchanges same alike maxDepth) code
    anchors 0

end MatchContext

namespace Catalog

open MatchContext

/-- Handlers that match the same rules stand for the same. -/
theorem classify_congr {context context' : MatchContext} {rules : List HandlerRule}
    {body body' : List Instruction} (operand : InlineOperand)
    (matched : ∀ rule ∈ rules, context.find? rule.signature body =
      context'.find? rule.signature body') :
    classify context rules body operand = classify context' rules body' operand := by
  have decides (rule : HandlerRule) (mem : rule ∈ rules) :
      ((rule.entry context).accepts operand && (rule.entry context).matched body) =
        ((rule.entry context').accepts operand && (rule.entry context').matched body') := by
    simp only [CatalogEntry.accepts, HandlerRule.operands_entry, HandlerRule.matched_entry,
      matched rule mem]
  simp only [classify, classifyBy, List.find?_map, Function.comp_def]
  rw [← List.head?_filter, ← List.head?_filter, List.filter_congr decides]
  cases (rules.filter _).head? with
  | none => rfl
  | some rule => simp only [Option.map_some, HandlerRule.kind_entry]

/-- What a handler stands for does not depend on how its operations, and those of the methods that
it calls, are encoded. -/
theorem classify_of_interchanged {host host' : Host} {body body' : List Instruction}
    (anchors : Anchors) (operand : InlineOperand) (same : host.Interchanges host')
    (alike : host.NegatesAlike host') (code : Interchanged body body') :
    classify ⟨host, anchors⟩ HandlerTable.rules body operand =
      classify ⟨host', anchors⟩ HandlerTable.rules body' operand :=
  classify_congr operand fun _ mem =>
    find?_of_interchanges same alike code (HandlerTable.isLoose_of_mem mem)

end Catalog

namespace NegatedComparison

def machine : TypeSig := .named false (.top .local "Sample" "Machine")

def object : TypeSig := .primitive .object

def push : MethodRef := ⟨machine, "Push", ⟨true, .primitive .void, [object], 0⟩, []⟩

def pop : MethodRef := ⟨machine, "Pop", ⟨true, object, [], 0⟩, []⟩

def jump : MethodRef := ⟨machine, "Jump", ⟨true, .primitive .void, [.primitive .u4], 0⟩, []⟩

def compare : MethodRef := ⟨machine, "Compare", ⟨false, object, [object, object], 0⟩, []⟩

def anchors : Anchors :=
  ⟨push, pop, jump, ⟨machine, "locals", none⟩, ⟨machine, "arguments", none⟩⟩

/-- A module with one helper. -/
def hostOf (helper : List Instruction) : Host where
  name := "Sample"
  methodTokens := ⟨[(compare, ⟨0x06000001⟩)]⟩
  bodies := ⟨[(⟨0x06000001⟩, helper)]⟩

/-- A helper that compares and negates. -/
def helper (first second zero : Instruction) : List Instruction :=
  [first, second, ⟨.ceq, .none, none⟩, zero, ⟨.ceq, .none, none⟩, ⟨.ret, .none, none⟩]

/-- A handler that pops two values and jumps if the helper says so. -/
def handler (self store branch : Instruction) : List Instruction :=
  [self, ⟨.call, .method pop, none⟩, store, self, ⟨.call, .method pop, none⟩,
    ⟨.stloc1, .none, none⟩, ⟨.ldloc1, .none, none⟩, ⟨.ldloc0, .none, none⟩,
    ⟨.call, .method compare, none⟩, branch, self, ⟨.ldarg1, .none, none⟩,
    ⟨.unboxAny, .type (.primitive .u4), none⟩, ⟨.call, .method jump, none⟩, ⟨.ret, .none, none⟩]

def shortHandler : List Instruction :=
  handler ⟨.ldarg0, .none, none⟩ ⟨.stloc0, .none, none⟩ ⟨.brfalseS, .target 14, none⟩

def longHandler : List Instruction :=
  handler ⟨.ldarg, .argument 0, none⟩ ⟨.stlocS, .local 0, none⟩ ⟨.brfalse, .target 14, none⟩

def shortHelper : List Instruction :=
  helper ⟨.ldarg0, .none, none⟩ ⟨.ldarg1, .none, none⟩ ⟨.ldcI40, .none, none⟩

def longHelper : List Instruction :=
  helper ⟨.ldargS, .argument 0, none⟩ ⟨.ldarg, .argument 1, none⟩ ⟨.ldcI40, .none, none⟩

/-- The helper with another encoding of its zero. -/
def otherHelper : List Instruction :=
  helper ⟨.ldarg0, .none, none⟩ ⟨.ldarg1, .none, none⟩ ⟨.ldcI4S, .immediate (.int8 0), none⟩

/-- Another encoding of the zero in a negated comparison makes the handler stand for the comparison
that is not negated. -/
theorem classify_otherHelper :
    (hostOf shortHelper).Interchanges (hostOf otherHelper) ∧
    Catalog.classify ⟨hostOf shortHelper, anchors⟩ HandlerTable.rules shortHandler
      .inlineBrTarget = .cil .bneUn ∧
    Catalog.classify ⟨hostOf otherHelper, anchors⟩ HandlerTable.rules shortHandler
      .inlineBrTarget = .cil .beq := by
  refine ⟨⟨rfl, Table.rel_get? (by decide)⟩, ?_, ?_⟩
  · decide +kernel
  · decide +kernel

/-- Other encodings of everything but the zero make no difference. -/
theorem classify_of_interchanged_long :
    (hostOf shortHelper).Interchanges (hostOf longHelper) ∧
    (hostOf shortHelper).NegatesAlike (hostOf longHelper) ∧
    Interchanged shortHandler longHandler ∧
    Catalog.classify ⟨hostOf longHelper, anchors⟩ HandlerTable.rules longHandler .inlineBrTarget =
      .cil .bneUn := by
  have same : (hostOf shortHelper).Interchanges (hostOf longHelper) :=
    ⟨rfl, Table.rel_get? (by decide)⟩
  have alike : (hostOf shortHelper).NegatesAlike (hostOf longHelper) :=
    Host.negatesAlike_of_entries (by decide)
  have code : Interchanged shortHandler longHandler := by decide
  refine ⟨same, alike, code, ?_⟩
  rw [← Catalog.classify_of_interchanged anchors .inlineBrTarget same alike code]
  decide +kernel

end NegatedComparison

end CilRecovery
