import CilRecovery.Pattern.Match
import CilRecovery.Virtual.HandlerTable

/-!
The catalog of virtual opcodes of an interpreter: each code with its operand type and what its
handler was found to stand for.
-/
namespace CilRecovery

/-- A row of an interpreter's handler table. -/
structure HandlerRow where
  code : UInt32
  /-- The number of the operand type. -/
  operand : Nat
  handler : Token
  deriving DecidableEq, Repr

/-- A test of the bodies of handlers: one that passes stands for `kind`. -/
structure CatalogEntry where
  kind : OpcodeKind
  /-- The operand types that the entry is for; none means all. -/
  operands : List InlineOperand := []
  matched : List Instruction → Bool

/-- Whether the entry is for a handler with an operand type. -/
def CatalogEntry.accepts (entry : CatalogEntry) (operand : InlineOperand) : Bool :=
  entry.operands.isEmpty || entry.operands.contains operand

/-- The entry of a rule, with its signature as the test. -/
def HandlerRule.entry (context : MatchContext) (rule : HandlerRule) : CatalogEntry where
  kind := rule.kind
  operands := rule.operands
  matched body := (context.find? rule.signature body).isSome

namespace HandlerRule

variable (context : MatchContext) (rule : HandlerRule)

@[simp] theorem kind_entry : (rule.entry context).kind = rule.kind := rfl

@[simp] theorem operands_entry : (rule.entry context).operands = rule.operands := rfl

@[simp] theorem matched_entry (body : List Instruction) :
    (rule.entry context).matched body = (context.find? rule.signature body).isSome := rfl

end HandlerRule

/-- Virtual opcodes with distinct codes. -/
structure Catalog where
  opcodes : List VirtualOpcode := []
  distinct : (opcodes.map VirtualOpcode.code).Nodup := by decide
  deriving DecidableEq

namespace Catalog

instance : Inhabited Catalog := ⟨{}⟩

/-- The first element that occurs again. -/
def firstRepeated? [DecidableEq α] : (seen : List α) → List α → Option α
  | _, [] => none
  | seen, a :: rest => if a ∈ seen then some a else firstRepeated? (a :: seen) rest

def repeatedCode (code : UInt32) : Error :=
  .bootstrap ("Virtual opcode 0x" ++ Text.hex 0 code.toNat ++ " appears twice in the handler table")

theorem nodup_of_firstRepeated?_eq_none [DecidableEq α] {seen list : List α}
    (none_ : firstRepeated? seen list = none) : list.Nodup ∧ ∀ a ∈ list, a ∉ seen := by
  induction list generalizing seen with
  | nil => simp
  | cons a rest ih =>
    rw [firstRepeated?] at none_
    split at none_
    · cases none_
    · rename_i fresh
      obtain ⟨nodup, apart⟩ := ih none_
      refine ⟨List.nodup_cons.mpr ⟨fun member => ?_, nodup⟩, fun b member => ?_⟩
      · exact apart a member (List.mem_cons_self ..)
      · rcases List.mem_cons.mp member with rfl | member
        · exact fresh
        · exact fun old => apart b member (List.mem_cons_of_mem _ old)

/-- Puts opcodes together; no code may occur twice. -/
def ofOpcodes (opcodes : List VirtualOpcode) : Except Error Catalog :=
  match repeats : firstRepeated? [] (opcodes.map VirtualOpcode.code) with
  | some code => .error (repeatedCode code)
  | none => .ok ⟨opcodes, (nodup_of_firstRepeated?_eq_none repeats).1⟩

def get? (catalog : Catalog) (code : UInt32) : Option VirtualOpcode :=
  catalog.opcodes.find? fun opcode => opcode.code == code

def size (catalog : Catalog) : Nat := catalog.opcodes.length

def identifiedCount (catalog : Catalog) : Nat :=
  catalog.opcodes.countP VirtualOpcode.isIdentified

/-- The opcodes by rising code. -/
def sorted (catalog : Catalog) : List VirtualOpcode :=
  catalog.opcodes.mergeSort fun a b => a.code ≤ b.code

/-- The opcodes that no rule identified, by rising code. -/
def unidentified (catalog : Catalog) : List VirtualOpcode :=
  catalog.sorted.filter fun opcode => !opcode.isIdentified

/-- What a handler body stands for: the first entry that matches decides, and an opcode whose
operand does not fit the declared type counts as unidentified. -/
def classifyBy (entries : List CatalogEntry) (body : List Instruction) (operand : InlineOperand) :
    OpcodeKind :=
  let decides (entry : CatalogEntry) : Bool := entry.accepts operand && entry.matched body
  match entries.find? decides with
  | none => .unidentified
  | some entry =>
    match entry.kind with
    | .cil opcode =>
      let form := opcode.formFor operand
      if form.operand = operand then .cil form else .unidentified
    | kind => kind

/-- What a handler body stands for under some rules, as `buildWith` has it. -/
def classify (context : MatchContext) (rules : List HandlerRule) (body : List Instruction)
    (operand : InlineOperand) : OpcodeKind :=
  classifyBy (rules.map (HandlerRule.entry context)) body operand

/-- What a row of the handler table stands for. -/
def classifyRow (host : Host) (entries : List CatalogEntry) (row : HandlerRow) :
    Except Error VirtualOpcode := do
  let operand ← InlineOperand.ofVirtualCode row.operand
  let kind :=
    match host.methodBody? row.handler with
    | some body => classifyBy entries body operand
    | none => .unidentified
  return ⟨row.code, operand, kind, row.handler⟩

/-- The failures among some results. -/
def failures (results : List (Except Error α)) : List Error :=
  results.filterMap fun
    | .ok _ => none
    | .error e => some e

/-- All results, unless there are failures: then one of them, and each of them for some number. -/
def collect (noticed : Nat) (results : List (Except Error α)) : Except Error (List α) :=
  match (failures results)[noticed % (failures results).length]? with
  | some e => .error e
  | none => .ok (results.filterMap Except.toOption)

theorem eq_map_ok_of_failures_eq_nil {results : List (Except Error α)}
    (none_ : failures results = []) : results = (results.filterMap Except.toOption).map .ok := by
  induction results with
  | nil => rfl
  | cons result rest ih =>
    cases result with
    | error e => cases none_
    | ok value => exact congrArg (.ok value :: ·) (ih none_)

/-- Whichever failure is noticed, all results are there if and only if none is a failure. -/
theorem collect_eq_ok_iff {noticed : Nat} {results : List (Except Error α)} {values : List α} :
    collect noticed results = .ok values ↔ results = values.map .ok := by
  constructor
  · intro collected
    rw [collect] at collected
    split at collected
    · cases collected
    · rename_i unfound
      cases collected
      cases failed : failures results with
      | nil => exact eq_map_ok_of_failures_eq_nil failed
      | cons e rest =>
        have small := Nat.mod_lt noticed (List.length_pos_of_mem (failed ▸ List.mem_cons_self ..))
        rw [List.getElem?_eq_getElem small] at unfound
        cases unfound
  · rintro rfl
    have none_ : failures (values.map .ok) = [] := by simp [failures, List.filterMap_map]
    rw [collect, none_]
    simp [List.filterMap_map, Function.comp_def, Except.toOption]

/-- The catalog of a handler table under some entries. -/
def buildBy (host : Host) (entries : List CatalogEntry) (rows : List HandlerRow) (noticed : Nat) :
    Except Error Catalog := do
  match firstRepeated? [] (rows.map HandlerRow.code) with
  | some code => throw (repeatedCode code)
  | none => ofOpcodes (← collect noticed (rows.map (classifyRow host entries)))

/-- The catalog of a handler table under some rules. -/
def buildWith (context : MatchContext) (rules : List HandlerRule) (rows : List HandlerRow)
    (noticed : Nat := 0) : Except Error Catalog :=
  buildBy context.host (rules.map (HandlerRule.entry context)) rows noticed

/-- The catalog of a handler table. -/
def build (context : MatchContext) (rows : List HandlerRow) (noticed : Nat := 0) :
    Except Error Catalog :=
  buildWith context HandlerTable.rules rows noticed

end Catalog

end CilRecovery
