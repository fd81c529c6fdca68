import Mathlib.Data.List.Basic
import CilRecovery.Recovery.Labels
import CilRecovery.Proofs.Listing
import CilRecovery.Proofs.Outcome

/-!
Linking: branches get the labels of their targets. Fixing the branches of a body that was written
from lines succeeds exactly if every target has a label, and changes nothing but the operands.
-/
namespace CilRecovery

namespace DecodedBody

/-- The label that a branch target gets, if there is one. -/
def label? (body : DecodedBody) (target : Nat) : Option Label :=
  ((body.index? target).filter (· < body.instructions.length)).or body.placeholder?

theorem targetLabel_eq (body : DecodedBody) (index target : Nat) :
    body.targetLabel index target =
      match body.label? target with
      | some label => .ok label
      | none =>
        .error (.malformed ("Branch at " ++ toString index ++ " targets virtual offset 0x" ++
          Text.hex 0 target ++ " outside any instruction")) := by
  unfold targetLabel label?
  cases (body.index? target).filter (· < body.instructions.length) with
  | some label => rfl
  | none => cases body.placeholder? <;> rfl

end DecodedBody

namespace RawOperand

/-- The virtual offsets that an operand branches to. -/
def targets : RawOperand → List Nat
  | ready _ => []
  | target offset => [offset]
  | switch offsets => offsets

/-- The operand once its targets have labels. -/
def linked (label : Nat → Label) : RawOperand → Operand
  | ready operand => operand
  | target offset => .target (label offset)
  | switch offsets => .switch (offsets.map label)

end RawOperand

namespace Line

def targets (line : Line) : List Nat := (line.content.map fun code => code.2.targets).getD []

/-- The instruction of a line, its targets resolved. -/
def linked? (label : Nat → Label) (line : Line) : Option Instruction :=
  line.content.map fun (opcode, operand) =>
    { opcode, operand := operand.linked label, virtualOffset := some line.offset }

end Line

namespace Listing

/-- The instructions of some lines, their targets resolved. -/
def linked (label : Nat → Label) (lines : List Line) : List Instruction :=
  lines.filterMap (Line.linked? label)

theorem length_linked (label : Nat → Label) (lines : List Line) :
    (linked label lines).length = (instructions lines).length := by
  induction lines with
  | nil => rfl
  | cons line rest ih =>
    unfold linked instructions at ih ⊢
    cases content : line.content <;> simp [Line.linked?, Line.instruction?, content, ih]

/-- Only the labels of targets matter. -/
theorem linked_congr {first second : Nat → Label} {lines : List Line}
    (same : ∀ line ∈ lines, ∀ target ∈ line.targets, first target = second target) :
    linked first lines = linked second lines := by
  apply List.filterMap_congr
  intro line member
  have here := same line member
  cases content : line.content with
  | none => simp [Line.linked?, content]
  | some code =>
    obtain ⟨opcode, operand⟩ := code
    simp only [Line.targets, content, Option.map_some, Option.getD_some] at here
    have equal : operand.linked first = operand.linked second := by
      cases operand with
      | ready operand => rfl
      | target offset => simp [RawOperand.linked, here offset (by simp [RawOperand.targets])]
      | switch offsets => simpa [RawOperand.linked, RawOperand.targets] using here
    simp [Line.linked?, content, equal]

theorem mapM_targetLabel {body : DecodedBody} (label : Nat → Label) {targets : List Nat}
    (known : ∀ target ∈ targets, body.label? target = some (label target)) (index : Nat) :
    targets.mapM (body.targetLabel index) = .ok (targets.map label) := by
  induction targets with
  | nil => rfl
  | cons target rest ih =>
    have first : body.targetLabel index target = .ok (label target) := by
      rw [body.targetLabel_eq, known target (by simp)]
    rw [List.mapM_cons, first, ih fun other member => known other (by simp [member])]
    rfl

theorem branchOperand_branch? {body : DecodedBody} (label : Nat → Label) {operand : RawOperand}
    (known : ∀ target ∈ operand.targets, body.label? target = some (label target)) {index : Nat}
    {branch : RawBranch} (is : operand.branch? index = some branch) :
    body.branchOperand branch = .ok (operand.linked label) := by
  cases operand with
  | ready operand => cases is
  | target offset =>
    cases is
    have labels : [offset].mapM (body.targetLabel index) = .ok [label offset] :=
      mapM_targetLabel label known index
    simp only [DecodedBody.branchOperand, labels]
    rfl
  | switch offsets =>
    cases is
    have labels : offsets.mapM (body.targetLabel index) = .ok (offsets.map label) :=
      mapM_targetLabel label known index
    simp only [DecodedBody.branchOperand, labels]
    rfl

theorem setOperand_append (done : List Instruction) (instruction : Instruction)
    (rest : List Instruction) (operand : Operand) :
    DecodedBody.setOperand (done ++ instruction :: rest) done.length operand =
      .ok (done ++ { instruction with operand } :: rest) := by
  have inside : done.length < (done ++ instruction :: rest).length := by simp
  rw [DecodedBody.setOperand, if_pos inside, List.modify_eq_take_cons_drop inside]
  simp

/-- The first branches of a body get their operands; `done` holds the instructions before. -/
theorem link_branches {body : DecodedBody} (label : Nat → Label) {lines : List Line}
    (known : ∀ line ∈ lines, ∀ target ∈ line.targets, body.label? target = some (label target))
    (done : List Instruction) :
    ∃ operands, (branches done.length lines).mapM body.branchOperand = .ok operands ∧
      ((branches done.length lines).zip operands).foldlM
          (fun instructions change =>
            DecodedBody.setOperand instructions change.1.index change.2)
          (done ++ instructions lines) =
        .ok (done ++ linked label lines) := by
  induction lines generalizing done with
  | nil => exact ⟨[], rfl, rfl⟩
  | cons line rest ih =>
    have later := ih fun other member => known other (by simp [member])
    have here := known line (by simp)
    cases content : line.content with
    | none => simpa [branches, content, instructions, linked, Line.instruction?, Line.linked?]
        using later done
    | some code =>
      obtain ⟨opcode, operand⟩ := code
      simp only [Line.targets, content, Option.map_some, Option.getD_some] at here
      obtain ⟨operands, found, set⟩ := later
        (done ++ [{ opcode, operand := operand.linked label, virtualOffset := some line.offset }])
      rw [List.length_append, List.length_singleton, List.append_assoc, List.append_assoc] at *
      have first : instructions (line :: rest) =
          { opcode, operand := operand.initial, virtualOffset := some line.offset } ::
            instructions rest := by simp [instructions, Line.instruction?, content]
      have second : linked label (line :: rest) =
          { opcode, operand := operand.linked label, virtualOffset := some line.offset } ::
            linked label rest := by simp [linked, Line.linked?, content]
      cases is : operand.branch? done.length with
      | none =>
        have same : operand.initial = operand.linked label := by
          cases operand <;> first | rfl | cases is
        refine ⟨operands, ?_, ?_⟩
        · simpa [branches, content, is] using found
        · rw [first, second, same]
          simpa [branches, content, is] using set
      | some branch =>
        have place : branch.index = done.length := by
          cases operand <;> cases is <;> rfl
        have linkedOperand := branchOperand_branch? label here is
        refine ⟨operand.linked label :: operands, ?_, ?_⟩
        · simp only [branches, content, is, Option.toList_some, List.singleton_append]
          rw [List.mapM_cons, linkedOperand, found]
          rfl
        · simp only [branches, content, is, Option.toList_some, List.singleton_append,
            List.zip_cons_cons, List.foldlM_cons]
          rw [first, second, place, setOperand_append]
          exact set

/-- Every target of a line is a target of one of the branches. -/
theorem exists_branch {lines : List Line} {line : Line} (member : line ∈ lines) {target : Nat}
    (goes : target ∈ line.targets) (index : Nat) :
    ∃ branch ∈ branches index lines, target ∈ branch.targets := by
  induction lines generalizing index with
  | nil => cases member
  | cons first rest ih =>
    rcases List.mem_cons.mp member with rfl | later
    · cases content : line.content with
      | none => simp [Line.targets, content] at goes
      | some code =>
        obtain ⟨opcode, operand⟩ := code
        simp only [Line.targets, content, Option.map_some, Option.getD_some] at goes
        cases operand with
        | ready operand => cases goes
        | target offset =>
          exact ⟨⟨index, [offset], false⟩, by simp [branches, content, RawOperand.branch?], goes⟩
        | switch offsets =>
          exact ⟨⟨index, offsets, true⟩, by simp [branches, content, RawOperand.branch?], goes⟩
    · cases content : first.content with
      | none =>
        obtain ⟨branch, found, there⟩ := ih later index
        exact ⟨branch, by simpa [branches, content] using found, there⟩
      | some code =>
        obtain ⟨branch, found, there⟩ := ih later (index + 1)
        exact ⟨branch, by simp [branches, content, found], there⟩

theorem label?_of_branchOperand {body : DecodedBody} {branch : RawBranch} {operand : Operand}
    (ends : body.branchOperand branch = .ok operand) {target : Nat}
    (member : target ∈ branch.targets) : ∃ label, body.label? target = some label := by
  rw [DecodedBody.branchOperand] at ends
  cases labels : branch.targets.mapM (body.targetLabel branch.index) with
  | error e => rw [labels] at ends; cases ends
  | ok labels' =>
    obtain ⟨label, found⟩ := exists_ok_of_mapM labels member
    rw [body.targetLabel_eq] at found
    cases known : body.label? target with
    | none => rw [known] at found; cases found
    | some label => exact ⟨label, rfl⟩

/-- The branches of a body written from lines can be fixed exactly if every target has a label,
and then the instructions are those of the lines with their targets resolved. -/
theorem fixBranches_eq_ok_iff {body fixed : DecodedBody} {lines : List Line}
    (listed : body.instructions = instructions lines) (branched : body.branches = branches 0 lines) :
    body.fixBranches = .ok fixed ↔
      (∀ line ∈ lines, ∀ target ∈ line.targets, (body.label? target).isSome) ∧
        fixed = { body with
          instructions := linked (fun target => (body.label? target).getD 0) lines } := by
  have links (known : ∀ line ∈ lines, ∀ target ∈ line.targets, (body.label? target).isSome) :
      body.fixBranches = .ok { body with
        instructions := linked (fun target => (body.label? target).getD 0) lines } := by
    obtain ⟨operands, found, set⟩ := link_branches (fun target => (body.label? target).getD 0)
      (fun line member target goes => by
        obtain ⟨label, same⟩ := Option.isSome_iff_exists.mp (known line member target goes)
        rw [same, Option.getD_some]) []
    rw [List.length_nil, ← branched] at found set
    rw [List.nil_append, ← listed] at set
    simp only [DecodedBody.fixBranches, found]
    change (List.foldlM _ body.instructions (body.branches.zip operands) >>= fun instructions =>
      Except.ok { body with instructions } : Except Error DecodedBody) = _
    rw [set]
    rfl
  constructor
  · intro ends
    have known : ∀ line ∈ lines, ∀ target ∈ line.targets, (body.label? target).isSome := by
      intro line member target goes
      obtain ⟨branch, found, there⟩ := exists_branch member goes 0
      rw [← branched] at found
      cases operands : body.branches.mapM body.branchOperand with
      | error e => simp only [DecodedBody.fixBranches, operands] at ends; cases ends
      | ok operands' =>
        obtain ⟨operand, ok⟩ := exists_ok_of_mapM operands found
        exact Option.isSome_iff_exists.mpr (label?_of_branchOperand ok there)
    exact ⟨known, Except.ok.inj (ends.symm.trans (links known))⟩
  · rintro ⟨known, rfl⟩
    exact links known

/-- A target lands at a line at or behind which an instruction stands. -/
def Lands (lines : List Line) (target : Nat) : Prop :=
  target ∈ offsets lines ∧ ∃ line ∈ lines, line.content.isSome ∧ target ≤ line.offset

instance (lines : List Line) (target : Nat) : Decidable (Lands lines target) :=
  inferInstanceAs (Decidable (_ ∧ _))

theorem before_lt_iff {lines : List Line} {offset : Nat} :
    before lines offset < (instructions lines).length ↔
      ∃ line ∈ lines, line.content.isSome ∧ offset ≤ line.offset := by
  rw [length_instructions, before]
  induction lines with
  | nil => simp
  | cons line rest ih =>
    have le : rest.countP (fun line => line.content.isSome && line.offset < offset) ≤
        rest.countP fun line => line.content.isSome := by
      simpa [before, length_instructions] using before_le rest offset
    by_cases coded : line.content.isSome = true
    · by_cases first : line.offset < offset
      · simpa [coded, first, Nat.not_le.mpr first] using ih
      · have here : offset ≤ line.offset := Nat.not_lt.mp first
        simp only [List.countP_cons, coded, first, List.mem_cons, decide_false, Bool.and_false,
          if_false, if_true, Bool.false_eq_true]
        exact ⟨fun _ => ⟨line, .inl rfl, coded, here⟩, fun _ => by omega⟩
    · simpa [coded] using ih

/-- In a body that was decoded to the end, a target that lands has the number of instructions
before it as its label, and no other target has a label. -/
theorem label?_settle_written {length : Nat} {lines : List Line}
    (rising : (offsets lines).Pairwise (· < ·)) (target : Nat) :
    (written length lines).settle.label? target =
      if Lands lines target then some (before lines target) else none := by
  have whole : (written length lines).settle.placeholder? = none := by
    simp [DecodedBody.placeholder?, DecodedBody.isDegraded, DecodedBody.settle, stop_written]
  have count : (written length lines).settle.instructions.length = (instructions lines).length := by
    rw [DecodedBody.settle, instructions_written]
  simp only [DecodedBody.label?, whole, Option.or_none, index?_settle_written rising, count, Lands,
    ← before_lt_iff]
  by_cases member : target ∈ offsets lines
  · by_cases behind : before lines target < (instructions lines).length
    · simp [member, behind]
    · simp [member, behind, Nat.not_lt.mp behind]
  · simp [member]

/-- Fixing the branches of a body that was decoded to the end succeeds exactly if every target
lands, and gives the instructions of the lines with their targets resolved. -/
theorem fixBranches_settle_written {length : Nat} {lines : List Line}
    (rising : (offsets lines).Pairwise (· < ·)) (fixed : DecodedBody) :
    (written length lines).settle.fixBranches = .ok fixed ↔
      (∀ line ∈ lines, ∀ target ∈ line.targets, Lands lines target) ∧
        fixed = { (written length lines).settle with
          instructions := linked (before lines) lines } := by
  have listed : (written length lines).settle.instructions = instructions lines :=
    instructions_written length lines
  have branched : (written length lines).settle.branches = branches 0 lines :=
    branches_written length lines
  have known (target : Nat) :
      ((written length lines).settle.label? target).isSome ↔ Lands lines target := by
    rw [label?_settle_written rising]
    by_cases lands : Lands lines target <;> simp [lands]
  rw [fixBranches_eq_ok_iff listed branched]
  simp only [known]
  apply and_congr_right
  intro land
  have same : linked (fun target => ((written length lines).settle.label? target).getD 0) lines =
      linked (before lines) lines := by
    apply linked_congr
    intro line member target goes
    rw [label?_settle_written rising, if_pos (land line member target goes), Option.getD_some]
  rw [same]

end Listing

namespace DecodedBody

/-- Branches that cannot be fixed are malformed. -/
theorem fixBranches_onlyFails (body : DecodedBody) :
    OnlyFails (fun e => ∃ reason, e = Error.malformed reason) body.fixBranches := by
  have label (index target : Nat) :
      OnlyFails (fun e => ∃ reason, e = Error.malformed reason) (body.targetLabel index target) := by
    rw [body.targetLabel_eq]
    cases body.label? target with
    | none => exact .error ⟨_, rfl⟩
    | some label => exact .ok label
  apply OnlyFails.bind
  · apply OnlyFails.mapM
    intro branch _
    apply OnlyFails.bind (.mapM fun target _ => label branch.index target)
    intro labels
    by_cases isSwitch : branch.isSwitch = true
    · rw [if_pos isSwitch]
      exact .ok _
    · rw [if_neg isSwitch]
      cases labels with
      | nil => exact .error ⟨_, rfl⟩
      | cons label _ => exact .ok _
  · intro operands
    apply OnlyFails.bind
    · apply OnlyFails.foldlM
      intro instructions change
      unfold setOperand
      split
      · exact .ok _
      · exact .error ⟨_, rfl⟩
    · intro instructions
      exact .ok _

end DecodedBody

end CilRecovery
