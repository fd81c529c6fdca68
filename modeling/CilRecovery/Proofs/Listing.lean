import Mathlib.Data.List.Induction
import CilRecovery.Recovery.Decoder

/-!
Listings: what decoding writes into a body, line by line. A body that was written from lines at
rising offsets sends the offset of each line to the number of instructions before it.
-/
namespace CilRecovery

namespace Table

variable {Key Value : Type} [DecidableEq Key]

theorem get?_foldl_insert (keys : List Key) (value : Value) (table : Table Key Value) (other : Key) :
    (keys.foldl (fun table key => table.insert key value) table).get? other =
      if other ∈ keys then some value else table.get? other := by
  induction keys generalizing table with
  | nil => simp
  | cons key rest ih =>
    rw [List.foldl_cons, ih, get?_insert]
    by_cases later : other ∈ rest
    · simp [later]
    · by_cases same : other = key
      · simp [same]
      · simp [later, same]

end Table

namespace RawOperand

/-- The operand until the targets have labels. -/
def initial : RawOperand → Operand
  | ready operand => operand
  | target _ => .target 0
  | switch _ => .switch []

/-- The branch that an instruction at some place is, if it is one. -/
def branch? (index : Nat) : RawOperand → Option RawBranch
  | ready _ => none
  | target offset => some ⟨index, [offset], false⟩
  | switch offsets => some ⟨index, offsets, true⟩

end RawOperand

/-- What one virtual instruction adds to a body: an instruction or nothing. -/
structure Line where
  offset : Nat
  content : Option (OpCode × RawOperand) := none
  deriving DecidableEq, Repr

namespace Line

/-- The instruction of a line, its targets still open. -/
def instruction? (line : Line) : Option Instruction :=
  line.content.map fun (opcode, operand) =>
    { opcode, operand := operand.initial, virtualOffset := some line.offset }

/-- Adds a line to a body. -/
def write (body : DecodedBody) (line : Line) : DecodedBody :=
  match line.content with
  | none => body.skip line.offset
  | some (opcode, .ready operand) => body.emit line.offset { opcode, operand }
  | some (opcode, .target target) =>
    body.emitBranch line.offset { opcode, operand := .target 0 } [target] false
  | some (opcode, .switch targets) =>
    body.emitBranch line.offset { opcode, operand := .switch [] } targets true

theorem write_none {line : Line} (content : line.content = none) (body : DecodedBody) :
    line.write body = body.skip line.offset := by
  rw [write, content]

/-- A line with an instruction notes its branch and adds the instruction. -/
theorem write_some {line : Line} {opcode : OpCode} {operand : RawOperand}
    (content : line.content = some (opcode, operand)) (body : DecodedBody) :
    line.write body =
      { body with
        branches := body.branches ++ (operand.branch? body.instructions.length).toList }.emit
        line.offset { opcode, operand := operand.initial } := by
  rw [write, content]
  cases operand with
  | ready operand => simp [RawOperand.branch?, RawOperand.initial]
  | target offset => rfl
  | switch offsets => rfl

end Line

namespace Listing

/-- The instructions of some lines, their targets still open. -/
def instructions (lines : List Line) : List Instruction := lines.filterMap Line.instruction?

/-- The branches among some lines, the first instruction having the place `index`. -/
def branches : (index : Nat) → List Line → List RawBranch
  | _, [] => []
  | index, line :: rest =>
    match line.content with
    | none => branches index rest
    | some (_, operand) => (operand.branch? index).toList ++ branches (index + 1) rest

/-- How many instructions stand before an offset. -/
def before (lines : List Line) (offset : Nat) : Nat :=
  lines.countP fun line => line.content.isSome && line.offset < offset

def offsets (lines : List Line) : List Nat := lines.map Line.offset

/-- The body that some lines make, before the last skipped offsets are settled. -/
def written (length : Nat) (lines : List Line) : DecodedBody :=
  lines.foldl Line.write { length }

theorem written_snoc (length : Nat) (lines : List Line) (line : Line) :
    written length (lines ++ [line]) = line.write (written length lines) := by
  rw [written, List.foldl_append]
  rfl

theorem length_instructions (lines : List Line) :
    (instructions lines).length = lines.countP fun line => line.content.isSome := by
  induction lines with
  | nil => rfl
  | cons line rest ih =>
    unfold instructions at ih ⊢
    cases content : line.content <;> simp [Line.instruction?, content, ih]

theorem before_le (lines : List Line) (offset : Nat) :
    before lines offset ≤ (instructions lines).length := by
  rw [length_instructions]
  apply List.countP_mono_left
  intro line _ holds
  exact (Bool.and_eq_true_iff.mp holds).1

theorem before_mono (lines : List Line) {first second : Nat} (le : first ≤ second) :
    before lines first ≤ before lines second := by
  apply List.countP_mono_left
  intro line _ holds
  simp only [Bool.and_eq_true, decide_eq_true_eq] at holds ⊢
  exact ⟨holds.1, Nat.lt_of_lt_of_le holds.2 le⟩

/-- Past the last line, every instruction stands before. -/
theorem before_end {lines : List Line} {offset : Nat}
    (past : ∀ line ∈ lines, line.offset < offset) :
    before lines offset = (instructions lines).length := by
  rw [length_instructions]
  apply List.countP_congr
  intro line member
  simp [past line member]

theorem before_snoc (lines : List Line) (line : Line) {offset : Nat} (le : offset ≤ line.offset) :
    before (lines ++ [line]) offset = before lines offset := by
  simp [before, Nat.not_lt.mpr le]

theorem branches_snoc (index : Nat) (lines : List Line) (line : Line) :
    branches index (lines ++ [line]) =
      branches index lines ++ branches (index + (instructions lines).length) [line] := by
  induction lines generalizing index with
  | nil => simp [branches, instructions]
  | cons first rest ih =>
    cases content : first.content with
    | none => simp [branches, content, ih, instructions, Line.instruction?]
    | some code =>
      have moved : index + 1 + (instructions rest).length =
          index + ((instructions rest).length + 1) := by omega
      simp [branches, content, ih, instructions, Line.instruction?] at moved ⊢
      rw [moved]

theorem length_written (length : Nat) (lines : List Line) :
    (written length lines).length = length := by
  induction lines using List.reverseRecOn with
  | nil => rfl
  | append_singleton lines line ih =>
    rw [written_snoc]
    cases content : line.content with
    | none => rw [Line.write_none content]; exact ih
    | some code => rw [Line.write_some content]; exact ih

theorem stop_written (length : Nat) (lines : List Line) : (written length lines).stop = none := by
  induction lines using List.reverseRecOn with
  | nil => rfl
  | append_singleton lines line ih =>
    rw [written_snoc]
    cases content : line.content with
    | none => rw [Line.write_none content]; exact ih
    | some code => rw [Line.write_some content]; exact ih

theorem instructions_written (length : Nat) (lines : List Line) :
    (written length lines).instructions = instructions lines := by
  induction lines using List.reverseRecOn with
  | nil => rfl
  | append_singleton lines line ih =>
    rw [written_snoc]
    cases content : line.content with
    | none =>
      rw [Line.write_none content]
      simpa [instructions, Line.instruction?, content, DecodedBody.skip] using ih
    | some code =>
      rw [Line.write_some content]
      simpa [instructions, Line.instruction?, content, DecodedBody.emit, DecodedBody.settle]
        using ih

theorem branches_written (length : Nat) (lines : List Line) :
    (written length lines).branches = branches 0 lines := by
  induction lines using List.reverseRecOn with
  | nil => rfl
  | append_singleton lines line ih =>
    rw [written_snoc, branches_snoc, ← ih]
    cases content : line.content with
    | none => simp [Line.write_none content, DecodedBody.skip, branches, content]
    | some code =>
      simp [Line.write_some content, DecodedBody.emit, DecodedBody.settle, branches, content,
        instructions_written]

/-- The offsets that wait for the next instruction are those of lines behind the last one. -/
theorem before_of_pending {length : Nat} {lines : List Line}
    (rising : (offsets lines).Pairwise (· < ·)) {offset : Nat}
    (waits : offset ∈ (written length lines).pending) :
    offset ∈ offsets lines ∧ before lines offset = (instructions lines).length := by
  induction lines using List.reverseRecOn with
  | nil => simp [written] at waits
  | append_singleton lines line ih =>
    rw [offsets, List.map_append, List.pairwise_append] at rising
    rw [written_snoc] at waits
    cases content : line.content with
    | none =>
      have same : instructions (lines ++ [line]) = instructions lines := by
        simp [instructions, Line.instruction?, content]
      rw [Line.write_none content] at waits
      rcases List.mem_append.mp waits with earlier | new
      · obtain ⟨member, count⟩ := ih rising.1 earlier
        have le : offset ≤ line.offset :=
          Nat.le_of_lt (rising.2.2 offset member line.offset (by simp))
        exact ⟨by simp [offsets] at member ⊢; exact .inl member, by
          rw [before_snoc lines line le, same, count]⟩
      · obtain rfl := List.mem_singleton.mp new
        refine ⟨by simp [offsets], ?_⟩
        rw [before_snoc lines line (Nat.le_refl _), same]
        apply before_end
        intro other member
        exact rising.2.2 other.offset (List.mem_map_of_mem member) line.offset (by simp)
    | some code =>
      rw [Line.write_some content] at waits
      simp [DecodedBody.emit, DecodedBody.settle] at waits

/-- The table of a body sends each line before the waiting ones to the number of instructions
before it. -/
theorem get?_offsets_written {length : Nat} {lines : List Line}
    (rising : (offsets lines).Pairwise (· < ·)) (offset : Nat) :
    (written length lines).offsets.get? offset =
      if offset ∈ offsets lines ∧ offset ∉ (written length lines).pending then
        some (before lines offset)
      else none := by
  induction lines using List.reverseRecOn with
  | nil => simp [written, offsets, Table.get?]
  | append_singleton lines line ih =>
    rw [offsets, List.map_append, List.pairwise_append] at rising
    have below : ∀ offset ∈ offsets lines, offset < line.offset :=
      fun offset member => rising.2.2 offset member line.offset (by simp)
    have appended : ∀ offset, offset ∈ offsets (lines ++ [line]) ↔
        offset ∈ offsets lines ∨ offset = line.offset := by simp [offsets]
    have kept : offset ∈ offsets lines → before (lines ++ [line]) offset = before lines offset :=
      fun member => before_snoc lines line (Nat.le_of_lt (below offset member))
    rw [written_snoc]
    cases content : line.content with
    | none =>
      rw [Line.write_none content]
      simp only [DecodedBody.skip, List.mem_append, List.mem_singleton, ih rising.1, appended]
      by_cases same : offset = line.offset
      · have fresh : line.offset ∉ offsets lines := fun member =>
          Nat.lt_irrefl _ (below line.offset member)
        simp [same, fresh]
      · by_cases member : offset ∈ offsets lines
        · simp [same, member, kept member]
        · simp [same, member]
    | some code =>
      rw [Line.write_some content]
      simp only [DecodedBody.emit, DecodedBody.settle, Table.get?_insert, Table.get?_foldl_insert,
        ih rising.1, appended, instructions_written, List.not_mem_nil, not_false_eq_true, and_true]
      by_cases same : offset = line.offset
      · have count : before (lines ++ [line]) line.offset = (instructions lines).length := by
          rw [before_snoc lines line (Nat.le_refl _)]
          exact before_end fun other member => below other.offset (List.mem_map_of_mem member)
        simp [same, count]
      · by_cases waits : offset ∈ (written length lines).pending
        · obtain ⟨member, count⟩ := before_of_pending rising.1 waits
          simp [same, waits, member, kept member, count]
        · by_cases member : offset ∈ offsets lines
          · simp [same, waits, member, kept member]
          · simp [same, waits, member]

/-- Once settled, the table of a body sends the offset of each line to the number of instructions
before it, and has no other offsets. -/
theorem index?_settle_written {length : Nat} {lines : List Line}
    (rising : (offsets lines).Pairwise (· < ·)) (offset : Nat) :
    (written length lines).settle.index? offset =
      if offset ∈ offsets lines then some (before lines offset) else none := by
  rw [DecodedBody.index?, DecodedBody.settle, Table.get?_foldl_insert,
    get?_offsets_written rising, instructions_written]
  by_cases waits : offset ∈ (written length lines).pending
  · obtain ⟨member, count⟩ := before_of_pending rising waits
    simp [waits, member, count]
  · simp [waits]

end Listing

end CilRecovery
