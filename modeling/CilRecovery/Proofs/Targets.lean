import Mathlib.Order.Bounds.Basic
import CilRecovery.Proofs.Places

/-!
Where branches go. The branches of a decoded body are linked as a whole or not at all: every target
gets the first instruction at its offset or behind it, or the placeholder of a body that stops
early, and a target that has neither leaves the body as it was.
-/
namespace CilRecovery

namespace DecodedBody

/-- The instructions of a body stand at rising virtual offsets. -/
def Rises (body : DecodedBody) : Prop :=
  ∃ offsets : List Nat, body.instructions.map Instruction.virtualOffset = offsets.map some ∧
    offsets.Pairwise (· < ·)

/-- A target that the table has lands on the first instruction that stands there or behind it. -/
structure LandsAt (body : DecodedBody) (target : Nat) (label : Label) : Prop where
  known : (body.index? target).isSome
  first : IsLeast { index | ∃ offset, body.offsetAt? index = some offset ∧ target ≤ offset } label

/-- A target that lands nowhere. -/
def Dangles (body : DecodedBody) (target : Nat) : Prop := ∀ label, ¬ body.LandsAt target label

/-- Where a target goes; if it lands nowhere, to the placeholder at which decoding stopped. -/
inductive GoesTo (body : DecodedBody) (target : Nat) (label : Label) : Prop where
  | lands (lands : body.LandsAt target label)
  | dangles (dangles : body.Dangles target) (stop : DecodeStop) (stopped : body.stop = some stop)
    (there : body.instructions[label]? = some (.placeholder stop.code stop.offset))

/-- An operand names the places where the targets of a branch go. -/
inductive Names (body : DecodedBody) : RawBranch → Operand → Prop where
  | target {index target : Nat} {label : Label} (goes : body.GoesTo target label) :
    Names body ⟨index, [target], false⟩ (.target label)
  | switch {index : Nat} {targets : List Nat} {labels : List Label}
    (goes : List.Forall₂ body.GoesTo targets labels) :
    Names body ⟨index, targets, true⟩ (.switch labels)

/-- Linking a body changes the operands of its branches, and nothing else. -/
structure Rewrites (body fixed : DecodedBody) : Prop where
  rest : fixed = { body with instructions := fixed.instructions }
  branch : ∀ branch ∈ body.branches, ∃ instruction operand,
    body.instructions[branch.index]? = some instruction ∧ body.Names branch operand ∧
      fixed.instructions[branch.index]? = some { instruction with operand }
  other : ∀ index, index ∉ body.branches.map RawBranch.index →
    fixed.instructions[index]? = body.instructions[index]?

/-- A body that was decoded to the end with a target that lands nowhere. -/
def Unlinkable (body : DecodedBody) : Prop :=
  body.stop = none ∧ ∃ branch ∈ body.branches, ∃ target ∈ branch.targets, body.Dangles target

/-- An operation that changes a body in place. -/
abbrev LinkM := ExceptT Error (StateM DecodedBody)

/-- Sets the operand of a branch in place. -/
def setBranch (change : RawBranch × Operand) : LinkM Unit := do
  let instructions ← ofExcept (setOperand (← get).instructions change.1.index change.2)
  modify fun body => { body with instructions }

/-- Links a body in place: all operands are found first, then one after the other is set. -/
def linkInPlace : LinkM Unit := do
  let body ← get
  let operands ← ofExcept (body.branches.mapM body.branchOperand)
  forM (body.branches.zip operands) setBranch

/-- The instructions after some operands are set. -/
def setAll (instructions : List Instruction) (changes : List (RawBranch × Operand)) :
    List Instruction :=
  changes.foldl (fun instructions change =>
    instructions.modify change.1.index fun instruction => { instruction with operand := change.2 })
    instructions

theorem setAll_cons (instructions : List Instruction) (change : RawBranch × Operand)
    (rest : List (RawBranch × Operand)) :
    setAll instructions (change :: rest) =
      setAll (instructions.modify change.1.index fun instruction =>
        { instruction with operand := change.2 }) rest := rfl

theorem length_setAll (instructions : List Instruction) (changes : List (RawBranch × Operand)) :
    (setAll instructions changes).length = instructions.length := by
  induction changes generalizing instructions with
  | nil => rfl
  | cons change rest ih => rw [setAll_cons, ih, List.length_modify]

theorem setOperand_eq {instructions : List Instruction} {change : RawBranch × Operand}
    (inside : change.1.index < instructions.length) :
    setOperand instructions change.1.index change.2 = .ok (setAll instructions [change]) := by
  rw [setOperand, if_pos inside]
  rfl

section

variable {changes : List (RawBranch × Operand)}

theorem foldlM_setOperand {instructions : List Instruction}
    (inside : ∀ change ∈ changes, change.1.index < instructions.length) :
    changes.foldlM (fun instructions change => setOperand instructions change.1.index change.2)
      instructions = .ok (setAll instructions changes) := by
  induction changes generalizing instructions with
  | nil => rfl
  | cons change rest ih =>
    have here := setOperand_eq (inside change (by simp))
    rw [List.foldlM_cons, here]
    apply ih
    intro other member
    rw [length_setAll]
    exact inside other (by simp [member])

theorem run_forM_setBranch {body : DecodedBody}
    (inside : ∀ change ∈ changes, change.1.index < body.instructions.length) :
    (forM changes setBranch).run.run body =
      (.ok (), { body with instructions := setAll body.instructions changes }) := by
  induction changes generalizing body with
  | nil => rfl
  | cons change rest ih =>
    have here := setOperand_eq (inside change (by simp))
    have first : (setBranch change).run.run body =
        (.ok (), { body with instructions := setAll body.instructions [change] }) := by
      rw [setBranch, run_get_bind, here]
      rfl
    rw [List.forM_cons, run_bind_ok first]
    apply ih
    intro other member
    rw [length_setAll]
    exact inside other (by simp [member])

theorem getElem?_setAll_of_notMem {instructions : List Instruction} {index : Nat}
    (absent : ∀ change ∈ changes, change.1.index ≠ index) :
    (setAll instructions changes)[index]? = instructions[index]? := by
  induction changes generalizing instructions with
  | nil => rfl
  | cons change rest ih =>
    rw [setAll_cons, ih fun other member => absent other (by simp [member])]
    exact List.getElem?_modify_ne _ _ (absent change (by simp))

/-- Where no place is set twice, each operand stays where it was set. -/
theorem getElem?_setAll_of_mem {instructions : List Instruction} {change : RawBranch × Operand}
    (distinct : (changes.map fun change => change.1.index).Nodup) (member : change ∈ changes) :
    (setAll instructions changes)[change.1.index]? =
      instructions[change.1.index]?.map fun instruction =>
        { instruction with operand := change.2 } := by
  induction changes generalizing instructions with
  | nil => cases member
  | cons first rest ih =>
    rw [List.map_cons, List.nodup_cons] at distinct
    rw [setAll_cons]
    rcases List.mem_cons.mp member with rfl | later
    · rw [getElem?_setAll_of_notMem fun other there same =>
        distinct.1 (List.mem_map.mpr ⟨other, there, same⟩)]
      exact List.getElem?_modify_eq _ _ _
    · have apart : first.1.index ≠ change.1.index := fun same =>
        distinct.1 (List.mem_map.mpr ⟨change, later, same.symm⟩)
      rw [ih distinct.2 later, List.getElem?_modify_ne _ _ apart]

end

/-- The operands of the branches, as pairs, in the order of the branches. -/
theorem inside_of_zip {body : DecodedBody} {operands : List Operand}
    (inside : ∀ branch ∈ body.branches, branch.index < body.instructions.length) :
    ∀ change ∈ body.branches.zip operands, change.1.index < body.instructions.length :=
  fun _ member => inside _ (List.of_mem_zip member).1

theorem fixBranches_eq {body : DecodedBody}
    (inside : ∀ branch ∈ body.branches, branch.index < body.instructions.length) :
    body.fixBranches = (body.branches.mapM body.branchOperand).map fun operands =>
      { body with instructions := setAll body.instructions (body.branches.zip operands) } := by
  rw [fixBranches]
  cases body.branches.mapM body.branchOperand with
  | error e => rfl
  | ok operands =>
    change (List.foldlM _ body.instructions (body.branches.zip operands) >>= fun instructions =>
      Except.ok { body with instructions } : Except Error DecodedBody) = _
    rw [foldlM_setOperand (inside_of_zip inside)]
    rfl

/-- Linking in place comes to the linked body, or leaves the body as it was. -/
theorem run_linkInPlace {body : DecodedBody}
    (inside : ∀ branch ∈ body.branches, branch.index < body.instructions.length) :
    linkInPlace.run.run body =
      match body.fixBranches with
      | .ok fixed => (.ok (), fixed)
      | .error e => (.error e, body) := by
  rw [fixBranches_eq inside, linkInPlace, run_get_bind]
  cases body.branches.mapM body.branchOperand with
  | error e => rfl
  | ok operands => exact run_forM_setBranch (inside_of_zip inside)

end DecodedBody

namespace Listing

/-- A recorded branch is that of an instruction at its place. -/
theorem exists_operand_of_mem_branches {lines : List Line} {index : Nat} {branch : RawBranch}
    (member : branch ∈ branches index lines) :
    (∃ (operand : RawOperand) (place : Nat), operand.branch? place = some branch) ∧
      index ≤ branch.index ∧ branch.index < index + (instructions lines).length := by
  induction lines generalizing index with
  | nil => cases member
  | cons line rest ih =>
    cases content : line.content with
    | none =>
      rw [branches, content] at member
      have same : instructions (line :: rest) = instructions rest := by
        simp [instructions, Line.instruction?, content]
      rw [same]
      exact ih member
    | some code =>
      rw [branches, content] at member
      have count : (instructions (line :: rest)).length = (instructions rest).length + 1 := by
        simp [instructions, Line.instruction?, content]
      rw [count]
      rcases List.mem_append.mp member with here | later
      · have is := Option.mem_toList.mp here
        have place : branch.index = index := by
          cases code with
          | mk opcode operand => cases operand <;> cases is <;> rfl
        exact ⟨⟨code.2, index, is⟩, by omega, by omega⟩
      · obtain ⟨shape, low, high⟩ := ih later
        exact ⟨shape, by omega, by omega⟩

theorem branches_nodup (lines : List Line) (index : Nat) :
    ((branches index lines).map RawBranch.index).Nodup := by
  induction lines generalizing index with
  | nil => exact List.nodup_nil
  | cons line rest ih =>
    cases content : line.content with
    | none =>
      rw [branches, content]
      exact ih index
    | some code =>
      rw [branches, content]
      dsimp only
      cases is : code.2.branch? index with
      | none => exact ih (index + 1)
      | some branch =>
        have place : branch.index = index := by
          cases code with
          | mk opcode operand => cases operand <;> cases is <;> rfl
        rw [Option.toList_some, List.singleton_append, List.map_cons, List.nodup_cons]
        refine ⟨fun member => ?_, ih (index + 1)⟩
        obtain ⟨other, there, same⟩ := List.mem_map.mp member
        have := (exists_operand_of_mem_branches there).2.1
        omega

end Listing

namespace DecodedBody.Decodes

variable {body : DecodedBody} {length : Nat} {lines : List Line}

theorem rises (decodes : body.Decodes length lines) : body.Rises :=
  ⟨Listing.places lines, decodes.lists.placed, Listing.places_rising decodes.lists.rising⟩

theorem branches_nodup (decodes : body.Decodes length lines) :
    (body.branches.map RawBranch.index).Nodup := by
  rw [decodes.branched]
  exact Listing.branches_nodup lines 0

theorem index_lt (decodes : body.Decodes length lines) :
    ∀ branch ∈ body.branches, branch.index < body.instructions.length := by
  intro branch member
  rw [decodes.branched] at member
  rw [decodes.listed]
  simpa using (Listing.exists_operand_of_mem_branches member).2.2

/-- The number of instructions before a target is the place of the first one from it on. -/
theorem isLeast_before (decodes : body.Decodes length lines) {target : Nat}
    (behind : Listing.before lines target < body.instructions.length) :
    IsLeast { index | ∃ offset, body.offsetAt? index = some offset ∧ target ≤ offset }
      (Listing.before lines target) := by
  have lists := decodes.lists
  constructor
  · obtain ⟨offset, there⟩ := lists.exists_offsetAt? behind
    refine ⟨offset, there, Nat.not_lt.mp fun below => ?_⟩
    exact Nat.lt_irrefl _ ((lists.lt_before_iff there target).mpr below)
  · rintro index ⟨offset, there, from_⟩
    refine Nat.not_lt.mp fun earlier => ?_
    exact Nat.not_lt.mpr from_ ((lists.lt_before_iff there target).mp earlier)

theorem lt_of_offsetAt? (decodes : body.Decodes length lines) {index offset : Nat}
    (there : body.offsetAt? index = some offset) : index < body.instructions.length := by
  rw [decodes.lists.offsetAt?_eq] at there
  rw [decodes.lists.count]
  exact (List.getElem?_eq_some_iff.mp there).1

/-- A target lands where the table says, if that is an instruction. -/
theorem landsAt_iff (decodes : body.Decodes length lines) (target : Nat) (label : Label) :
    body.LandsAt target label ↔
      (body.index? target).filter (· < body.instructions.length) = some label := by
  have table := decodes.lists.table target
  rw [Option.filter_eq_some_iff, decide_eq_true_eq]
  constructor
  · rintro ⟨known, first⟩
    obtain ⟨index, is⟩ := Option.isSome_iff_exists.mp known
    have before : Listing.before lines target = index := by
      rw [is] at table
      split at table
      · exact (Option.some.inj table).symm
      · cases table
    obtain ⟨offset, there, from_⟩ := first.1
    have inside := decodes.lt_of_offsetAt? there
    have le : Listing.before lines target ≤ label := Nat.not_lt.mp fun earlier =>
      Nat.not_lt.mpr from_ ((decodes.lists.lt_before_iff there target).mp earlier)
    have same := first.unique (decodes.isLeast_before (Nat.lt_of_le_of_lt le inside))
    exact ⟨by rw [is, same, before], inside⟩
  · rintro ⟨is, inside⟩
    have before : Listing.before lines target = label := by
      rw [is] at table
      split at table
      · exact (Option.some.inj table).symm
      · cases table
    refine ⟨by rw [is]; rfl, ?_⟩
    rw [← before] at inside ⊢
    exact decodes.isLeast_before inside

/-- The label that a target gets is the place where it goes. -/
theorem goesTo_of_label? (decodes : body.Decodes length lines) {target : Nat} {label : Label}
    (found : body.label? target = some label) : body.GoesTo target label := by
  rcases Option.or_eq_some_iff.mp found with lands | ⟨nowhere, falls⟩
  · exact .lands ((decodes.landsAt_iff target label).mpr lands)
  · have dangles : body.Dangles target := by
      intro other lands
      rw [(decodes.landsAt_iff target other).mp lands] at nowhere
      cases nowhere
    cases stopped : body.stop with
    | none => simp [placeholder?, isDegraded, stopped] at falls
    | some stop =>
      obtain ⟨front, ending, _⟩ := decodes.stops stop stopped
      refine .dangles dangles stop stopped ?_
      have last : label = front.length := by
        simpa [placeholder?, isDegraded, stopped, ending] using falls.symm
      rw [ending, last, List.getElem?_concat_length]

/-- A target without a label lands nowhere in a body that was decoded to the end. -/
theorem dangles_of_label? (decodes : body.Decodes length lines) {target : Nat}
    (missing : body.label? target = none) : body.stop = none ∧ body.Dangles target := by
  obtain ⟨nowhere, noPlaceholder⟩ := Option.or_eq_none_iff.mp missing
  constructor
  · cases stopped : body.stop with
    | none => rfl
    | some stop =>
      obtain ⟨front, ending, _⟩ := decodes.stops stop stopped
      simp [placeholder?, isDegraded, stopped, ending] at noPlaceholder
  · intro label lands
    rw [(decodes.landsAt_iff target label).mp lands] at nowhere
    cases nowhere

/-- The operand of a branch names the places where its targets go. -/
theorem names_of_branchOperand (decodes : body.Decodes length lines) {branch : RawBranch}
    (member : branch ∈ body.branches) {operand : Operand}
    (found : body.branchOperand branch = .ok operand) : body.Names branch operand := by
  have known : ∀ target ∈ branch.targets,
      body.label? target = some ((body.label? target).getD 0) := by
    intro target goes
    obtain ⟨label, same⟩ := Listing.label?_of_branchOperand found goes
    rw [same, Option.getD_some]
  rw [decodes.branched] at member
  obtain ⟨⟨raw, place, is⟩, _⟩ := Listing.exists_operand_of_mem_branches member
  have targets : branch.targets = raw.targets := by cases raw <;> cases is <;> rfl
  have linked := Listing.branchOperand_branch? (fun target => (body.label? target).getD 0)
    (fun target goes => known target (targets ▸ goes)) is
  cases found.symm.trans linked
  cases raw with
  | ready operand => cases is
  | target offset =>
    cases is
    exact .target (decodes.goesTo_of_label? (known offset (by simp)))
  | switch offsets =>
    cases is
    refine .switch (List.forall₂_map_right_iff.mpr (List.forall₂_same.mpr ?_))
    intro target goes
    exact decodes.goesTo_of_label? (known target goes)

/-- Linking that does not fail changes the operands of the branches, and nothing else. -/
theorem rewrites (decodes : body.Decodes length lines) {fixed : DecodedBody}
    (links : body.fixBranches = .ok fixed) : body.Rewrites fixed := by
  rw [fixBranches_eq decodes.index_lt] at links
  cases found : body.branches.mapM body.branchOperand with
  | error e =>
    rw [found] at links
    cases links
  | ok operands =>
    rw [found] at links
    cases links
    have pairs := forall₂_of_mapM found
    have zipped : (body.branches.zip operands).map Prod.fst = body.branches :=
      List.map_fst_zip (Nat.le_of_eq pairs.length_eq)
    have distinct : ((body.branches.zip operands).map fun change => change.1.index).Nodup := by
      have places := congrArg (List.map RawBranch.index) zipped
      rw [List.map_map] at places
      exact places ▸ decodes.branches_nodup
    refine ⟨rfl, ?_, ?_⟩
    · intro branch member
      rw [← zipped] at member
      obtain ⟨⟨_, operand⟩, there, rfl⟩ := List.mem_map.mp member
      have inside := inside_of_zip decodes.index_lt _ there
      have named := decodes.names_of_branchOperand (List.of_mem_zip there).1
        (List.forall₂_zip pairs there)
      refine ⟨_, operand, List.getElem?_eq_getElem inside, named, ?_⟩
      rw [getElem?_setAll_of_mem distinct there, List.getElem?_eq_getElem inside, Option.map_some]
    · intro index absent
      apply getElem?_setAll_of_notMem
      intro change there same
      exact absent (List.mem_map.mpr ⟨change.1, (List.of_mem_zip there).1, same⟩)

/-- Linking fails exactly if a body that was decoded to the end has a target that lands nowhere. -/
theorem unlinkable_iff (decodes : body.Decodes length lines) :
    body.Unlinkable ↔ ∃ reason, body.fixBranches = .error (.malformed reason) := by
  constructor
  · rintro ⟨whole, branch, member, target, goes, dangles⟩
    cases found : body.branches.mapM body.branchOperand with
    | error e =>
      have fails : body.fixBranches = .error e := by
        rw [fixBranches_eq decodes.index_lt, found]
        rfl
      obtain ⟨reason, rfl⟩ := body.fixBranches_onlyFails e fails
      exact ⟨reason, fails⟩
    | ok operands =>
      obtain ⟨operand, named⟩ := exists_ok_of_mapM found member
      obtain ⟨label, is⟩ := Listing.label?_of_branchOperand named goes
      rcases decodes.goesTo_of_label? is with lands | ⟨_, stop, stopped, _⟩
      · exact absurd lands (dangles label)
      · cases whole.symm.trans stopped
  · rintro ⟨reason, fails⟩
    by_contra linkable
    have known : ∀ line ∈ lines, ∀ target ∈ line.targets, (body.label? target).isSome := by
      intro line member target goes
      by_contra missing
      obtain ⟨whole, dangles⟩ :=
        decodes.dangles_of_label? (Option.not_isSome_iff_eq_none.mp missing)
      obtain ⟨branch, found, there⟩ := Listing.exists_branch member goes 0
      rw [← decodes.branched] at found
      exact linkable ⟨whole, branch, found, target, there, dangles⟩
    have links := (Listing.fixBranches_eq_ok_iff decodes.listed decodes.branched).mpr ⟨known, rfl⟩
    rw [fails] at links
    cases links

end DecodedBody.Decodes

/-- A decoded body has its instructions at rising offsets and each of its branches at one of them.
Linking it fails and leaves it as it was, if it was decoded to the end and a target lands nowhere;
otherwise it gives the branches the places where their targets go, and changes nothing else. -/
theorem Decoder.decode_linked {decoder : Decoder} {reader after : Reader} {length : Nat}
    {session last : Session} {body : DecodedBody}
    (ends : (decoder.decode reader length).run.run session = (.ok (body, after), last)) :
    body.Rises ∧ (body.branches.map RawBranch.index).Nodup ∧
      (∀ branch ∈ body.branches, branch.index < body.instructions.length) ∧
      ((body.Unlinkable ∧ ∃ reason, body.fixBranches = .error (.malformed reason) ∧
          DecodedBody.linkInPlace.run.run body = (.error (.malformed reason), body)) ∨
        (¬ body.Unlinkable ∧ ∃ fixed, body.fixBranches = .ok fixed ∧ body.Rewrites fixed ∧
          DecodedBody.linkInPlace.run.run body = (.ok (), fixed))) := by
  obtain ⟨lines, decodes⟩ := decoder.decodes_of_decode ends
  refine ⟨decodes.rises, decodes.branches_nodup, decodes.index_lt, ?_⟩
  have inPlace := DecodedBody.run_linkInPlace decodes.index_lt
  cases links : body.fixBranches with
  | error e =>
    obtain ⟨reason, rfl⟩ := body.fixBranches_onlyFails e links
    rw [links] at inPlace
    exact .inl ⟨decodes.unlinkable_iff.mpr ⟨reason, links⟩, reason, rfl, inPlace⟩
  | ok fixed =>
    rw [links] at inPlace
    refine .inr ⟨fun unlinkable => ?_, fixed, rfl, decodes.rewrites links, inPlace⟩
    obtain ⟨reason, fails⟩ := decodes.unlinkable_iff.mp unlinkable
    cases links.symm.trans fails

namespace PastTheStop

def jump : VirtualOpcode := ⟨7, .inlineBrTarget, .cil .br, ⟨0⟩⟩

def select : VirtualOpcode := ⟨8, .inlineSwitch, .cil .switch, ⟨0⟩⟩

def idle : VirtualOpcode := ⟨9, .inlineNone, .special .noEffect, ⟨0⟩⟩

def nameless : VirtualOpcode := ⟨10, .inlineI, .unidentified, ⟨0⟩⟩

def decoder : Decoder where
  catalog := { opcodes := [jump, select, idle, nameless] }
  resolver := { stream := { base := .memory [] } }
  token := ⟨0x06000001⟩

def session : Session := { host := { name := "Sample" } }

/-- A jump to an opcode without effect, and a choice between the start and what comes after the
place at which decoding stops. -/
def code : Bytes :=
  [7, 0, 6, 0, 0, 0, 9, 0, 8, 0, 2, 0, 0, 0, 0, 0, 0, 0, 99, 0, 0, 0, 10, 0, 0, 0, 0, 0]

/-- The operands after decoding and linking. -/
def operands : Except Error (List Operand) :=
  match ((decoder.decode (.ofBytes code {}) 28).run.run session).1 with
  | .ok (body, _) => body.fixBranches.map fun fixed => fixed.instructions.map Instruction.operand
  | .error e => .error e

/-- The jump goes to the choice, and the choice to the jump and to the placeholder. -/
theorem decode_linked_stopped : ∃ body after last fixed,
    (decoder.decode (.ofBytes code {}) 28).run.run session = (.ok (body, after), last) ∧
      body.Rises ∧ body.fixBranches = .ok fixed ∧ body.Rewrites fixed ∧
        fixed.instructions.map Instruction.operand =
          [.target 1, .switch [0, 2], .placeholder 10] := by
  have found : operands = .ok [.target 1, .switch [0, 2], .placeholder 10] := by decide +kernel
  unfold operands at found
  generalize ends : (decoder.decode (.ofBytes code {}) 28).run.run session = outcome at found ⊢
  obtain ⟨e | ⟨body, after⟩, last⟩ := outcome
  · cases found
  · dsimp only at found
    obtain ⟨rises, _, _, ⟨_, reason, fails, _⟩ | ⟨_, fixed, links, rewrites, _⟩⟩ :=
      Decoder.decode_linked ends
    · rw [fails] at found
      cases found
    · rw [links] at found
      exact ⟨body, after, last, fixed, rfl, rises, links, rewrites, Except.ok.inj found⟩

end PastTheStop

end CilRecovery
