import CilRecovery.Proofs.Decoding

/-!
The places of a decoded body. Its instructions stand at rising virtual offsets, and its table sends
every offset that it has to the number of instructions before that offset.
-/
namespace CilRecovery

namespace Listing

/-- The offsets at which an instruction stands. -/
def places (lines : List Line) : List Nat :=
  (lines.filter fun line => line.content.isSome).map Line.offset

theorem places_rising {lines : List Line} (rising : (offsets lines).Pairwise (· < ·)) :
    (places lines).Pairwise (· < ·) :=
  rising.sublist (List.filter_sublist.map Line.offset)

theorem length_places (lines : List Line) :
    (places lines).length = (instructions lines).length := by
  rw [places, List.length_map, ← List.countP_eq_length_filter, length_instructions]

theorem before_eq_countP (lines : List Line) (offset : Nat) :
    before lines offset = (places lines).countP (· < offset) := by
  rw [places, List.countP_map, List.countP_filter, before]
  apply List.countP_congr
  intro line _
  simp [and_comm]

theorem virtualOffset_instructions (lines : List Line) :
    (instructions lines).map Instruction.virtualOffset = (places lines).map some := by
  induction lines with
  | nil => rfl
  | cons line rest ih =>
    unfold instructions places at ih ⊢
    cases content : line.content <;> simp [Line.instruction?, content] <;> simpa using ih

theorem virtualOffset_linked (label : Nat → Label) (lines : List Line) :
    (linked label lines).map Instruction.virtualOffset = (places lines).map some := by
  rw [← virtualOffset_instructions, linked, instructions, List.map_filterMap, List.map_filterMap]
  apply List.filterMap_congr
  intro line _
  rw [Line.linked?, Line.instruction?]
  cases line.content <;> rfl

/-- Among rising offsets, those below a bound come first. -/
theorem lt_countP_iff {places : List Nat} (rising : places.Pairwise (· < ·)) {index offset : Nat}
    (there : places[index]? = some offset) (bound : Nat) :
    index < places.countP (· < bound) ↔ offset < bound := by
  induction places generalizing index with
  | nil => cases there
  | cons first rest ih =>
    obtain ⟨least, rising⟩ := List.pairwise_cons.mp rising
    by_cases below : first < bound
    · rw [List.countP_cons_of_pos (by simpa using below)]
      cases index with
      | zero =>
        cases there
        simpa using below
      | succ index => simpa using ih rising there
    · have none_ : (first :: rest).countP (· < bound) = 0 := by
        rw [List.countP_eq_zero]
        intro other member
        rcases List.mem_cons.mp member with rfl | later
        · simpa using below
        · have := least other later
          simpa using (by omega : bound ≤ other)
      have above : first ≤ offset := by
        rcases List.mem_cons.mp (List.mem_of_getElem? there) with rfl | later
        · exact Nat.le_refl _
        · exact Nat.le_of_lt (least offset later)
      rw [none_]
      omega

end Listing

namespace DecodedBody

/-- The virtual offset of the instruction at some place. -/
def offsetAt? (body : DecodedBody) (index : Nat) : Option Nat :=
  body.instructions[index]?.bind Instruction.virtualOffset

/-- The instructions of a body stand at the offsets of some lines, and its table has all the lines
and no more. -/
structure Lists (body : DecodedBody) (length : Nat) (lines : List Line) : Prop where
  rising : (Listing.offsets lines).Pairwise (· < ·)
  inside : ∀ offset ∈ Listing.offsets lines, offset < length
  size : body.length = length
  placed : body.instructions.map Instruction.virtualOffset = (Listing.places lines).map some
  table : ∀ offset, body.index? offset =
    if offset ∈ Listing.offsets lines then some (Listing.before lines offset) else none

namespace Lists

variable {body : DecodedBody} {length : Nat} {lines : List Line}

theorem count (lists : body.Lists length lines) :
    body.instructions.length = (Listing.places lines).length := by
  simpa using congrArg List.length lists.placed

theorem offsetAt?_eq (lists : body.Lists length lines) (index : Nat) :
    body.offsetAt? index = (Listing.places lines)[index]? := by
  have same := congrArg (·[index]?) lists.placed
  simp only [List.getElem?_map] at same
  rw [offsetAt?]
  cases there : body.instructions[index]? with
  | none =>
    rw [there] at same
    exact (Option.map_eq_none_iff.mp same.symm).symm
  | some instruction =>
    rw [there] at same
    obtain ⟨offset, is, known⟩ := Option.map_eq_some_iff.mp same.symm
    rw [is, Option.bind_some, ← known]

/-- The instructions before an offset are those that the table counts. -/
theorem lt_before_iff (lists : body.Lists length lines) {index offset : Nat}
    (there : body.offsetAt? index = some offset) (bound : Nat) :
    index < Listing.before lines bound ↔ offset < bound := by
  rw [lists.offsetAt?_eq] at there
  rw [Listing.before_eq_countP]
  exact Listing.lt_countP_iff (Listing.places_rising lists.rising) there bound

theorem exists_offsetAt? (lists : body.Lists length lines) {index : Nat}
    (inside : index < body.instructions.length) : ∃ offset, body.offsetAt? index = some offset := by
  rw [lists.count] at inside
  exact ⟨_, (lists.offsetAt?_eq index).trans (List.getElem?_eq_getElem inside)⟩

theorem before_le (lists : body.Lists length lines) (offset : Nat) :
    Listing.before lines offset ≤ body.instructions.length := by
  rw [lists.count, Listing.length_places]
  exact Listing.before_le lines offset

/-- No instruction stands at the end of the code or behind it. -/
theorem before_end (lists : body.Lists length lines) {offset : Nat} (past : length ≤ offset) :
    Listing.before lines offset = body.instructions.length := by
  rw [lists.count, Listing.length_places]
  apply Listing.before_end
  intro line member
  exact Nat.lt_of_lt_of_le (lists.inside line.offset (List.mem_map_of_mem member)) past

/-- A boundary that has a label has the number of instructions before it. -/
theorem boundary_eq (lists : body.Lists length lines) {offset : Nat} {label : Label}
    (found : body.boundary offset = .ok label) : label = Listing.before lines offset := by
  rw [boundary, lists.size] at found
  split at found
  · rename_i last
    cases found
    exact (lists.before_end (Nat.le_of_eq last.symm)).symm
  · rw [lists.table] at found
    split at found
    · rename_i known
      split at known
      · cases known
        cases found
        rfl
      · cases known
    · cases found

/-- The range of labels of a range of offsets. -/
theorem labelRange_eq (lists : body.Lists length lines) {range : OffsetRange} {labels : LabelRange}
    (found : body.labelRange range = .ok labels) :
    labels = ⟨Listing.before lines range.start.toNat, Listing.before lines range.finish⟩ := by
  obtain ⟨start, first, found⟩ := exists_of_bind_eq_ok found
  obtain ⟨finish, last, found⟩ := exists_of_bind_eq_ok found
  cases found
  rw [lists.boundary_eq first, lists.boundary_eq last]

end Lists

end DecodedBody

/-- A body written from rising lines lists them. -/
theorem Listing.lists_written {length : Nat} {lines : List Line}
    (rising : (offsets lines).Pairwise (· < ·))
    (inside : ∀ offset ∈ offsets lines, offset < length) :
    (written length lines).settle.Lists length lines where
  rising := rising
  inside := inside
  size := length_written length lines
  placed := by
    rw [← virtualOffset_instructions, ← instructions_written length lines]
    rfl
  table := index?_settle_written rising

/-- The lines of a body that decoding came to, with its branches still open. -/
structure DecodedBody.Decodes (body : DecodedBody) (length : Nat) (lines : List Line) : Prop where
  lists : body.Lists length lines
  listed : body.instructions = Listing.instructions lines
  branched : body.branches = Listing.branches 0 lines
  /-- A body that stops early ends in its only placeholder. -/
  stops : ∀ stop, body.stop = some stop → ∃ front,
    body.instructions = front ++ [.placeholder stop.code stop.offset] ∧
      ∀ instruction ∈ front, instruction.isPlaceholder = false

namespace DecodedBody

theorem Extends.exists_lines {catalog : Catalog} {length : Nat} {stopped : Bool}
    {written : DecodedBody} (extended : Extends catalog 0 length { length } stopped written) :
    ∃ lines, written.settle.Decodes length lines := by
  cases extended with
  | whole lines between =>
    refine ⟨lines, Listing.lists_written between.rising fun offset member =>
      (between.bounds offset member).2, Listing.instructions_written length lines,
      Listing.branches_written length lines, fun stop stops => ?_⟩
    change (Listing.written length lines).stop = some stop at stops
    rw [Listing.stop_written] at stops
    cases stops
  | stopped lines stop between inside short justified =>
    have appended : Listing.offsets (lines ++ [stop.line]) =
        Listing.offsets lines ++ [stop.offset] := List.map_append
    have rising : (Listing.offsets (lines ++ [stop.line])).Pairwise (· < ·) := by
      rw [appended, List.pairwise_append]
      refine ⟨between.rising, List.pairwise_singleton _ _, fun low member high last => ?_⟩
      rw [List.mem_singleton.mp last]
      exact (between.bounds low member).2
    have under : ∀ offset ∈ Listing.offsets (lines ++ [stop.line]), offset < length := by
      intro offset member
      rw [appended, List.mem_append, List.mem_singleton] at member
      rcases member with earlier | rfl
      · exact Nat.lt_trans (between.bounds offset earlier).2 short
      · exact short
    have lists := Listing.lists_written rising under
    have listed := Listing.instructions_written length (lines ++ [stop.line])
    change ∃ lines', ((Listing.written length lines).stopAt stop).settle.Decodes length lines'
    rw [settle_stopAt_written]
    refine ⟨lines ++ [stop.line],
      ⟨lists.rising, lists.inside, lists.size, lists.placed, lists.table⟩, listed,
      Listing.branches_written length _, ?_⟩
    rintro _ ⟨⟩
    refine ⟨Listing.instructions lines, listed.trans List.filterMap_append, ?_⟩
    intro instruction member
    obtain ⟨line, there, is⟩ := List.mem_filterMap.mp member
    exact Listing.isPlaceholder_of_isOpen (between.isOpen line there) is

/-- Linking moves no instruction. -/
theorem Decodes.lists_fixBranches {body fixed : DecodedBody} {length : Nat} {lines : List Line}
    (decodes : body.Decodes length lines) (links : body.fixBranches = .ok fixed) :
    fixed.Lists length lines := by
  obtain ⟨_, rfl⟩ := (Listing.fixBranches_eq_ok_iff decodes.listed decodes.branched).mp links
  exact ⟨decodes.lists.rising, decodes.lists.inside, decodes.lists.size,
    Listing.virtualOffset_linked _ lines, decodes.lists.table⟩

end DecodedBody

/-- Decoding that does not fail lists the lines that it came by. -/
theorem Decoder.decodes_of_decode (decoder : Decoder) {reader after : Reader} {length : Nat}
    {session last : Session} {body : DecodedBody}
    (ends : (decoder.decode reader length).run.run session = (.ok (body, after), last)) :
    ∃ lines, body.Decodes length lines := by
  obtain ⟨written, stopped, rfl, extended⟩ := decoder.decode_ensures ends
  exact extended.exists_lines

end CilRecovery
