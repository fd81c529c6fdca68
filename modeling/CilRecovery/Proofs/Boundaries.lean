import CilRecovery.Proofs.Handlers
import CilRecovery.Proofs.Places

/-!
The labels of a body that was decoded to the end. Its branches land on instructions and its ranges
are in order, but the start of a range may lie behind the last instruction: the end of the code has
a label, and so have offsets at which nothing more is emitted.
-/
namespace CilRecovery

/-- Whether an instruction stands at a virtual offset or behind it. -/
def MethodBody.covers (body : MethodBody) (offset : Nat) : Bool :=
  body.instructions.any fun instruction => instruction.virtualOffset.any (offset ≤ ·)

/-- The virtual offsets at which the parts of a handler start. -/
def HandlerRecord.starts (record : HandlerRecord) : List UInt32 :=
  record.guarded.start :: record.handler.start ::
    match record.kind with
    | .ok .filter => [record.filter]
    | _ => []

/-- The labels of a body whose handlers stand for some records. Only the starts of the records
decide whether all of its labels are in range. -/
structure MethodBody.Placed (records : List HandlerRecord) (body : MethodBody) : Prop where
  targets : ∀ label ∈ body.instructions.flatMap Instruction.targets,
    label < body.instructions.length
  ranges : ∀ handler ∈ body.handlers, ∀ range ∈ [handler.guarded, handler.handler],
    range.start ≤ range.finish ∧ range.finish ≤ body.instructions.length
  labelsInRange_iff : body.labelsInRange ↔
    ∀ record ∈ records, ∀ start ∈ record.starts, body.covers start.toNat

/-- A body of lines all of whose targets land. -/
structure Listing.Makes (length : Nat) (lines : List Line) (body : DecodedBody) : Prop where
  between : Between 0 length lines
  lands : ∀ line ∈ lines, ∀ target ∈ line.targets, Lands lines target
  is : body = { (written length lines).settle with instructions := linked (before lines) lines }

theorem DecodedBody.Linked.exists_lines {catalog : Catalog} {length : Nat} {body : DecodedBody}
    (linked : Linked catalog length body) (whole : body.stop = none) :
    ∃ lines, Listing.Makes length lines body := by
  cases linked with
  | whole lines between lands => exact ⟨lines, between, lands, rfl⟩
  | stopped lines stop between justified label => cases whole

theorem OffsetRange.start_le_finish (range : OffsetRange) : range.start.toNat ≤ range.finish := by
  have := range.start.toNat_lt
  rw [finish]
  omega

namespace Listing

theorem targets_linked? {label : Nat → Label} {line : Line} {instruction : Instruction}
    (isOpen : line.isOpen) (linked : line.linked? label = some instruction) :
    instruction.targets = line.targets.map label := by
  obtain ⟨⟨opcode, operand⟩, content, rfl⟩ := Option.map_eq_some_iff.mp linked
  simp only [Line.isOpen, content, Option.all_some] at isOpen
  simp only [Line.targets, content, Option.map_some, Option.getD_some]
  cases operand with
  | ready operand => cases operand <;> first | rfl | cases isOpen
  | target offset => rfl
  | switch offsets => rfl

end Listing

namespace Listing.Makes

variable {length : Nat} {lines : List Line} {body : DecodedBody}

theorem count (makes : Makes length lines body) :
    body.instructions.length = (instructions lines).length := by
  rw [makes.is]
  exact length_linked _ _

theorem lists (makes : Makes length lines body) : body.Lists length lines := by
  have listed := lists_written makes.between.rising fun offset member =>
    (makes.between.bounds offset member).2
  rw [makes.is]
  exact ⟨listed.rising, listed.inside, listed.size, virtualOffset_linked _ lines, listed.table⟩

theorem targets_lt (makes : Makes length lines body) {label : Label}
    (member : label ∈ body.instructions.flatMap Instruction.targets) :
    label < body.instructions.length := by
  rw [makes.count]
  rw [makes.is] at member
  obtain ⟨instruction, listed, goes⟩ := List.mem_flatMap.mp member
  obtain ⟨line, there, same⟩ := List.mem_filterMap.mp listed
  rw [targets_linked? (makes.between.isOpen line there) same] at goes
  obtain ⟨target, aims, rfl⟩ := List.mem_map.mp goes
  exact before_lt_iff.mpr (makes.lands line there target aims).2

/-- An offset has a label in the body exactly if an instruction stands there or behind it. -/
theorem before_lt_iff_covers (makes : Makes length lines body) {method : MethodBody}
    (same : method.instructions = body.instructions) (offset : Nat) :
    before lines offset < (instructions lines).length ↔ method.covers offset := by
  rw [before_lt_iff, MethodBody.covers, same, makes.is, List.any_eq_true]
  constructor
  · rintro ⟨line, member, emits, le⟩
    obtain ⟨⟨opcode, operand⟩, content⟩ := Option.isSome_iff_exists.mp emits
    have emitted : line.linked? (before lines) =
        some ⟨opcode, operand.linked (before lines), some line.offset⟩ := by
      rw [Line.linked?, content]
      rfl
    exact ⟨_, List.mem_filterMap.mpr ⟨line, member, emitted⟩, by simpa using le⟩
  · rintro ⟨instruction, listed, le⟩
    obtain ⟨line, there, linked⟩ := List.mem_filterMap.mp listed
    obtain ⟨code, content, rfl⟩ := Option.map_eq_some_iff.mp linked
    exact ⟨line, there, by rw [content]; rfl, by simpa using le⟩

/-- The ranges of a body are in order. -/
theorem range_le (makes : Makes length lines body) {range : OffsetRange} {labels : LabelRange}
    (found : body.labelRange range = .ok labels) :
    labels.start ≤ labels.finish ∧ labels.finish ≤ (instructions lines).length := by
  rw [makes.lists.labelRange_eq found]
  exact ⟨before_mono lines range.start_le_finish, before_le lines _⟩

theorem ranges_le (makes : Makes length lines body) {records : List HandlerRecord}
    {handlers : List ExceptionHandler}
    (links : List.Forall₂ (HandlerRecord.Links body) records handlers) :
    ∀ handler ∈ handlers, ∀ range ∈ [handler.guarded, handler.handler],
      range.start ≤ range.finish ∧ range.finish ≤ (instructions lines).length := by
  induction links with
  | nil => simp
  | cons first _ ih =>
    rw [List.forall_mem_cons]
    refine ⟨?_, ih⟩
    simp only [List.forall_mem_cons, List.not_mem_nil, false_implies, implies_true, and_true]
    exact ⟨makes.range_le first.guarded, makes.range_le first.handler⟩

theorem rangeInside_iff (makes : Makes length lines body) {method : MethodBody}
    (same : method.instructions = body.instructions) {range : OffsetRange} {labels : LabelRange}
    (found : body.labelRange range = .ok labels) :
    MethodBody.rangeInside (instructions lines).length labels ↔
      method.covers range.start.toNat := by
  obtain ⟨ordered, inside⟩ := makes.range_le found
  rw [← makes.before_lt_iff_covers same, MethodBody.rangeInside]
  simp only [ordered, inside, decide_true, Bool.and_true, decide_eq_true_eq]
  rw [makes.lists.labelRange_eq found]

/-- The labels of a handler are in range exactly if the parts of its record start in the body. -/
theorem handler_iff (makes : Makes length lines body) {method : MethodBody}
    (same : method.instructions = body.instructions) {record : HandlerRecord}
    {handler : ExceptionHandler} (links : record.Links body handler) :
    (MethodBody.rangeInside (instructions lines).length handler.guarded &&
      MethodBody.rangeInside (instructions lines).length handler.handler &&
        handler.filter.all (· < (instructions lines).length)) ↔
      ∀ start ∈ record.starts, method.covers start.toNat := by
  have filter : handler.filter.all (· < (instructions lines).length) ↔
      ∀ start ∈ (match record.kind with
        | .ok .filter => [record.filter]
        | _ => []), method.covers start.toNat := by
    have filtered := links.filter
    rw [links.kind]
    cases kind : handler.kind with
    | filter =>
      rw [kind, HandlerRecord.filterLabel] at filtered
      cases found : body.boundary record.filter.toNat with
      | error e =>
        rw [found] at filtered
        cases filtered
      | ok label =>
        rw [found] at filtered
        have is : handler.filter = some label := (Except.ok.inj filtered).symm
        rw [is, makes.lists.boundary_eq found]
        simpa using makes.before_lt_iff_covers same _
    | _ =>
      rw [kind] at filtered
      have is : handler.filter = none := (Except.ok.inj filtered).symm
      simp [is]
  rw [Bool.and_eq_true, Bool.and_eq_true, makes.rangeInside_iff same links.guarded,
    makes.rangeInside_iff same links.handler, filter, HandlerRecord.starts, List.forall_mem_cons,
    List.forall_mem_cons, and_assoc]

theorem handlers_iff (makes : Makes length lines body) {method : MethodBody}
    (same : method.instructions = body.instructions) {records : List HandlerRecord}
    {handlers : List ExceptionHandler}
    (links : List.Forall₂ (HandlerRecord.Links body) records handlers) :
    (handlers.all fun handler =>
      MethodBody.rangeInside (instructions lines).length handler.guarded &&
        MethodBody.rangeInside (instructions lines).length handler.handler &&
          handler.filter.all (· < (instructions lines).length)) ↔
      ∀ record ∈ records, ∀ start ∈ record.starts, method.covers start.toNat := by
  induction links with
  | nil => simp
  | cons first _ ih =>
    rw [List.all_cons, Bool.and_eq_true, ih, makes.handler_iff same first, List.forall_mem_cons]

end Listing.Makes

/-- A body that was decoded to the end has its labels in place. -/
theorem MethodBody.placed {catalog : Catalog} {length : Nat} {decoded : DecodedBody}
    {records : List HandlerRecord} {body : MethodBody}
    (linked : decoded.Linked catalog length) (whole : decoded.stop = none)
    (same : body.instructions = decoded.instructions)
    (links : List.Forall₂ (HandlerRecord.Links decoded) records body.handlers) :
    body.Placed records := by
  obtain ⟨lines, makes⟩ := linked.exists_lines whole
  have count : body.instructions.length = (Listing.instructions lines).length := by
    rw [same, makes.count]
  have targets : ∀ label ∈ body.instructions.flatMap Instruction.targets,
      label < body.instructions.length := by
    rw [same]
    intro label member
    exact makes.targets_lt member
  refine ⟨targets, ?_, ?_⟩
  · rw [count]
    exact makes.ranges_le links
  · have inside : (body.instructions.flatMap Instruction.targets).all
        (· < body.instructions.length) = true :=
      List.all_eq_true.mpr fun label member => decide_eq_true (targets label member)
    rw [labelsInRange, inside, Bool.true_and, count]
    exact makes.handlers_iff same links

end CilRecovery
