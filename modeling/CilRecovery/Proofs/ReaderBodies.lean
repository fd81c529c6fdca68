import Mathlib.Data.List.Basic
import CilRecovery.Permutation.Inference
import CilRecovery.Proofs.Permutation

/-!
Methods that put a number together byte by byte. Each byte is fetched from a buffer or read from a
stream, converted, and shifted to its place; between the bytes there may be other instructions. Such
a body reveals just the permutation that it was written for.
-/
namespace CilRecovery

/-! ### Bodies -/

/-- The short forms of `ldc.i4` for the numbers from zero on. -/
def OpCode.shortConstants : List OpCode :=
  [.ldcI40, .ldcI41, .ldcI42, .ldcI43, .ldcI44, .ldcI45, .ldcI46, .ldcI47, .ldcI48]

/-- What can push a number that is not negative. -/
def OpCode.constants : List OpCode := [.ldcI4S, .ldcI4] ++ shortConstants

/-- What a buffer can be loaded from: a local, an argument or a field. -/
def OpCode.bufferLoads : List OpCode :=
  [.ldloc0, .ldloc1, .ldloc2, .ldloc3, .ldlocS, .ldloc, .ldarg0, .ldarg1, .ldarg2, .ldarg3, .ldargS,
    .ldarg, .ldfld, .ldsfld]

namespace Instruction

/-- The encodings of a constant. -/
inductive Pushes (n : Nat) : Instruction → Prop
  | short {opcode : OpCode} {operand : Operand} {offset : Option Nat}
      (form : OpCode.shortConstants[n]? = some opcode) : Pushes n ⟨opcode, operand, offset⟩
  | byte {value : Int8} {offset : Option Nat} (same : value.toInt = n) :
      Pushes n ⟨.ldcI4S, .immediate (.int8 value), offset⟩
  | word {value : Int32} {offset : Option Nat} (same : value.toInt = n) :
      Pushes n ⟨.ldcI4, .immediate (.int32 value), offset⟩

/-- A call of a method that reads the next byte. -/
def ReadsByte (instruction : Instruction) : Prop :=
  (instruction.opcode = .call ∨ instruction.opcode = .callvirt) ∧
    ∃ method, instruction.operand = .method method ∧ method.name = "ReadByte"

end Instruction

namespace Permutation

/-- How a body comes by its bytes. -/
inductive Shape where
  /-- From a buffer, each byte by its index. -/
  | indexed
  /-- From a stream, one after the other. -/
  | sequential
  deriving DecidableEq

/-- The orders in which bytes can be fetched. -/
def Shape.Visits (width : Nat) (indexes : List Nat) : Shape → Prop
  | indexed => indexes.Perm (List.range width)
  | sequential => indexes = List.range width

/-- Instructions that fetch the byte with an index. -/
inductive Fetch : Shape → (index : Nat) → List Instruction → Prop
  | indexed {index : Nat} {buffer constant load : Instruction}
      (loads : buffer.opcode ∈ OpCode.bufferLoads) (pushes : constant.Pushes index)
      (element : load.opcode = .ldelemU1) : Fetch .indexed index [buffer, constant, load]
  | sequential {index : Nat} {call : Instruction} (reads : call.ReadsByte) :
      Fetch .sequential index [call]

/-- Instructions that shift a byte to its place; the lowest place needs none. -/
inductive Shift (place : Nat) : List Instruction → Prop
  | left {constant shift : Instruction} (pushes : constant.Pushes (8 * place))
      (shifts : shift.opcode = .shl) : Shift place [constant, shift]
  | none (lowest : place = 0) : Shift place []

/-- Instructions that fetch a byte, convert it and shift it to its place. -/
inductive Group (shape : Shape) (index place : Nat) : List Instruction → Prop
  | intro {fetch conversions shift : List Instruction} (fetches : Fetch shape index fetch)
      (converts : ∀ instruction ∈ conversions, instruction.opcode.isConversion = true)
      (shifts : Shift place shift) : Group shape index place (fetch ++ (conversions ++ shift))

/-- Instructions that have no part in putting the bytes together. -/
def Filler (code : List Instruction) : Prop :=
  ∀ instruction ∈ code,
    instruction.opcode ≠ .ldelemU1 ∧ instruction.opcode ≠ .shl ∧ ¬ instruction.ReadsByte

/-- Bodies that put together the bytes with some indexes, in this order, each at its place. -/
inductive Assembles (shape : Shape) (order : List Nat) :
    (indexes : List Nat) → List Instruction → Prop
  | done {filler : List Instruction} (idle : Filler filler) : Assembles shape order [] filler
  | next {filler group rest : List Instruction} {index place : Nat} {indexes : List Nat}
      (idle : Filler filler) (placed : order[index]? = some place)
      (grouped : Group shape index place group) (later : Assembles shape order indexes rest) :
      Assembles shape order (index :: indexes) (filler ++ (group ++ rest))

end Permutation

/-! ### Instructions -/

namespace Instruction

variable {instruction : Instruction} {n : Nat}

theorem isReadByte_iff : instruction.isReadByte = true ↔ instruction.ReadsByte := by
  obtain ⟨opcode, operand, offset⟩ := instruction
  have calls : opcode.isCall = true ↔ opcode = .call ∨ opcode = .callvirt := by
    cases opcode <;> simp [OpCode.isCall]
  simp only [isReadByte, ReadsByte, Bool.and_eq_true, calls]
  cases operand <;> simp [method?]

theorem Pushes.exists_i4Constant? (pushes : Pushes n instruction) :
    ∃ value, instruction.i4Constant? = some value ∧ value.toInt = n := by
  cases pushes with
  | @short opcode operand offset form =>
    have table : ∀ n (inside : n < OpCode.shortConstants.length),
        OpCode.shortConstants[n].implicitI4? = some (Int32.ofNat n) ∧
          (Int32.ofNat n).toInt = n := by decide
    obtain ⟨inside, rfl⟩ := List.getElem?_eq_some_iff.mp form
    obtain ⟨implicit, same⟩ := table n inside
    exact ⟨Int32.ofNat n, by simp [i4Constant?, implicit], same⟩
  | byte same => exact ⟨_, rfl, by rw [Int8.toInt_toInt32, same]⟩
  | word same => exact ⟨_, rfl, same⟩

theorem Pushes.opcode_mem (pushes : Pushes n instruction) :
    instruction.opcode ∈ OpCode.constants := by
  cases pushes with
  | short form => exact List.mem_append_right _ (List.mem_of_getElem? form)
  | byte same => exact List.mem_cons_self
  | word same => exact List.mem_cons_of_mem _ List.mem_cons_self

end Instruction

namespace OpCode

/-- The opcodes that fetch a byte or shift it. -/
def assembling : List OpCode := [.ldelemU1, .shl, .call, .callvirt]

theorem notMem_assembling_of_load {opcode : OpCode} (load : opcode ∈ bufferLoads ++ constants) :
    opcode ∉ assembling := by
  revert opcode
  decide

theorem isConversion_eq_false {opcode : OpCode}
    (other : opcode ∈ bufferLoads ++ constants ++ assembling) : opcode.isConversion = false := by
  revert opcode
  decide +kernel

theorem notMem_assembling_of_conversion {opcode : OpCode} (converts : opcode.isConversion = true) :
    opcode ∉ assembling := by
  intro member
  simp [isConversion_eq_false (List.mem_append_right _ member)] at converts

theorem ne_shl_of_notMem {opcode : OpCode} (other : opcode ∉ assembling) : opcode ≠ .shl := by
  rintro rfl
  exact other (by decide)

end OpCode

namespace Permutation

/-! ### Instructions that produce no byte -/

/-- An instruction that produces no byte of the stream. -/
def Passive (instruction : Instruction) : Prop :=
  instruction.opcode ≠ .ldelemU1 ∧ instruction.isReadByte = false

theorem passive_of_notMem {instruction : Instruction}
    (other : instruction.opcode ∉ OpCode.assembling) : Passive instruction := by
  refine ⟨fun element => other (by simp [element, OpCode.assembling]),
    Bool.eq_false_iff.mpr fun reads => other ?_⟩
  rcases (Instruction.isReadByte_iff.mp reads).1 with call | call <;> simp [call, OpCode.assembling]

theorem Filler.passive {code : List Instruction} (idle : Filler code) {instruction : Instruction}
    (member : instruction ∈ code) : Passive instruction :=
  ⟨(idle _ member).1, Bool.eq_false_iff.mpr fun reads =>
    (idle _ member).2.2 (Instruction.isReadByte_iff.mp reads)⟩

theorem notMem_of_bufferLoad {instruction : Instruction}
    (loads : instruction.opcode ∈ OpCode.bufferLoads) : instruction.opcode ∉ OpCode.assembling :=
  OpCode.notMem_assembling_of_load (List.mem_append_left _ loads)

theorem notMem_of_pushes {instruction : Instruction} {n : Nat} (pushes : instruction.Pushes n) :
    instruction.opcode ∉ OpCode.assembling :=
  OpCode.notMem_assembling_of_load (List.mem_append_right _ pushes.opcode_mem)

theorem isBufferLoad_of_mem {instruction : Instruction}
    (loads : instruction.opcode ∈ OpCode.bufferLoads) : instruction.isBufferLoad = true :=
  (by decide : ∀ opcode ∈ OpCode.bufferLoads, (opcode.isLoadLocal || opcode.isLoadArg ||
    opcode == .ldfld || opcode == .ldsfld) = true) _ loads

theorem Shift.passive {place : Nat} {code : List Instruction} (shift : Shift place code)
    {instruction : Instruction} (member : instruction ∈ code) : Passive instruction := by
  cases shift with
  | left pushes shifts =>
    rcases List.mem_pair.mp member with rfl | rfl
    · exact passive_of_notMem (notMem_of_pushes pushes)
    · exact ⟨by simp [shifts], by simp [Instruction.isReadByte, shifts, OpCode.isCall]⟩
  | none => cases member

namespace Placement

variable {placement : Placement} {before rest : List Instruction} {instruction : Instruction}

theorem streamIndex?_of_passive (passive : Passive instruction) :
    placement.streamIndex? before instruction = none := by
  unfold streamIndex?
  split
  · exact absurd ‹_› passive.1
  · simp [passive.2]

/-- Passive instructions are passed over. -/
theorem scan_append {code : List Instruction}
    (passive : ∀ instruction ∈ code, Passive instruction) :
    placement.scan before (code ++ rest) = placement.scan (code.reverse ++ before) rest := by
  induction code generalizing before with
  | nil => rfl
  | cons instruction more ih =>
    obtain ⟨now, later⟩ := List.forall_mem_cons.mp passive
    rw [List.cons_append, scan, streamIndex?_of_passive now]
    simp only [now.2]
    rw [List.reverse_cons, List.append_assoc]
    exact ih later

end Placement

/-! ### Shifts -/

section Shifts

variable {rest : List Instruction}

theorem shiftAfter?_conversions {conversions : List Instruction}
    (converts : ∀ instruction ∈ conversions, instruction.opcode.isConversion = true) :
    shiftAfter? (conversions ++ rest) = shiftAfter? rest := by
  simp only [shiftAfter?]
  rw [List.dropWhile_append_of_pos converts]

/-- A shift by a constant is found behind the byte. -/
theorem shiftAfter?_left {constant shift : Instruction} {n : Nat} (pushes : constant.Pushes n)
    (shifts : shift.opcode = .shl) :
    shiftAfter? (constant :: shift :: rest) = constant.i4Constant? := by
  have stays : constant.opcode.isConversion = false := by
    apply OpCode.isConversion_eq_false
    exact List.mem_append_left _ (List.mem_append_right _ pushes.opcode_mem)
  simp [shiftAfter?, stays, shifts]

/-- Behind an instruction that is no conversion only the next one can be a shift. -/
theorem shiftAfter?_of_head {instruction : Instruction}
    (stays : instruction.opcode.isConversion = false)
    (next : ∀ follower ∈ rest.head?, follower.opcode ≠ .shl) :
    shiftAfter? (instruction :: rest) = some 0 := by
  cases rest with
  | nil => simp [shiftAfter?, stays]
  | cons follower more => simp [shiftAfter?, stays, next follower rfl]

/-- Filler holds no shift and brings none about. -/
theorem Filler.shiftAfter? {filler : List Instruction} (idle : Filler filler)
    (none : shiftAfter? rest = some 0) (next : ∀ follower ∈ rest.head?, follower.opcode ≠ .shl) :
    Permutation.shiftAfter? (filler ++ rest) = some 0 := by
  induction filler with
  | nil => exact none
  | cons instruction more ih =>
    have later : Filler more := fun other member => idle other (List.mem_cons_of_mem _ member)
    cases converts : instruction.opcode.isConversion with
    | true =>
      rw [List.cons_append, ← List.singleton_append,
        shiftAfter?_conversions (by simpa using converts)]
      exact ih later
    | false =>
      refine shiftAfter?_of_head converts fun follower first => ?_
      cases more with
      | nil => exact next follower first
      | cons other more =>
        cases first
        exact (idle _ (by simp)).2.1

theorem Fetch.exists_cons {shape : Shape} {index : Nat} {fetch : List Instruction}
    (fetches : Fetch shape index fetch) :
    ∃ first more, fetch = first :: more ∧ first.opcode ≠ .shl := by
  cases fetches with
  | indexed loads _ _ =>
    exact ⟨_, _, rfl, OpCode.ne_shl_of_notMem (notMem_of_bufferLoad loads)⟩
  | sequential reads =>
    refine ⟨_, _, rfl, ?_⟩
    rcases reads.1 with call | call <;> simp [call]

/-- A body goes on with something else than a shift behind the fetch of a byte. -/
theorem head_ne_shl_of_shift {place : Nat} {conversions shift : List Instruction}
    (converts : ∀ instruction ∈ conversions, instruction.opcode.isConversion = true)
    (shifts : Shift place shift) (next : ∀ follower ∈ rest.head?, follower.opcode ≠ .shl) :
    ∀ follower ∈ (conversions ++ shift ++ rest).head?, follower.opcode ≠ .shl := by
  intro follower first
  cases conversions with
  | cons conversion _ =>
    cases first
    exact OpCode.ne_shl_of_notMem
      (OpCode.notMem_assembling_of_conversion (converts _ List.mem_cons_self))
  | nil =>
    cases shifts with
    | left pushes _ =>
      cases first
      exact OpCode.ne_shl_of_notMem (notMem_of_pushes pushes)
    | none _ => exact next follower first

variable {shape : Shape} {order indexes : List Nat} {index place : Nat}
  {body group : List Instruction}

theorem Group.head_ne_shl (grouped : Group shape index place group) :
    ∀ instruction ∈ (group ++ rest).head?, instruction.opcode ≠ .shl := by
  intro instruction first
  obtain ⟨fetches, _, _⟩ := grouped
  obtain ⟨lead, _, rfl, other⟩ := fetches.exists_cons
  cases first
  exact other

/-- The instructions that fetch a byte shift none that was fetched before. -/
theorem Group.shiftAfter? (grouped : Group shape index place group)
    (next : ∀ follower ∈ rest.head?, follower.opcode ≠ .shl) :
    Permutation.shiftAfter? (group ++ rest) = some 0 := by
  obtain ⟨fetches, converts, shifts⟩ := grouped
  cases fetches with
  | indexed loads pushes _ =>
    refine shiftAfter?_of_head (OpCode.isConversion_eq_false ?_) fun follower first => ?_
    · simp [loads]
    · cases first
      exact OpCode.ne_shl_of_notMem (notMem_of_pushes pushes)
  | sequential reads =>
    have behind := head_ne_shl_of_shift converts shifts next
    refine shiftAfter?_of_head (OpCode.isConversion_eq_false ?_) behind
    rcases reads.1 with call | call <;> simp [call, OpCode.assembling]

/-- A body does not start with a shift. -/
theorem Assembles.head_ne_shl (assembles : Assembles shape order indexes body) :
    ∀ instruction ∈ body.head?, instruction.opcode ≠ .shl := by
  intro instruction first
  cases assembles with
  | done idle => exact (idle _ (List.mem_of_mem_head? first)).2.1
  | @next filler _ _ _ _ _ idle _ grouped _ =>
    cases filler with
    | nil => exact grouped.head_ne_shl instruction first
    | cons lead _ =>
      cases first
      exact (idle _ List.mem_cons_self).2.1

/-- Nothing in a body is taken for a shift of what stands before it. -/
theorem Assembles.shiftAfter? (assembles : Assembles shape order indexes body) :
    Permutation.shiftAfter? body = some 0 := by
  cases assembles with
  | done idle =>
    rw [← List.append_nil body]
    exact idle.shiftAfter? rfl (by simp)
  | next idle _ grouped later =>
    exact idle.shiftAfter? (grouped.shiftAfter? later.head_ne_shl) grouped.head_ne_shl

/-- The shift of a byte is that of its own group. -/
theorem exists_shiftAfter? {conversions shift : List Instruction}
    (converts : ∀ instruction ∈ conversions, instruction.opcode.isConversion = true)
    (shifts : Shift place shift) (none : Permutation.shiftAfter? rest = some 0) :
    ∃ value, Permutation.shiftAfter? (conversions ++ shift ++ rest) = some value ∧
      value.toInt = 8 * place := by
  rw [List.append_assoc, shiftAfter?_conversions converts]
  cases shifts with
  | left pushes shifts =>
    obtain ⟨value, constant, same⟩ := pushes.exists_i4Constant?
    exact ⟨value, (shiftAfter?_left pushes shifts).trans constant, by simpa using same⟩
  | none lowest => exact ⟨0, none, by simp [lowest]⟩

end Shifts

/-! ### Placing -/

namespace Placement

variable {placement : Placement} {before rest : List Instruction} {shape : Shape}
  {index place : Nat}

/-- Counts a byte that is read from the stream. -/
def counted (placement : Placement) : Shape → Placement
  | .indexed => placement
  | .sequential => { placement with sequential := placement.sequential + 1 }

/-- What is known once a byte has its place. -/
def put (placement : Placement) (shape : Shape) (index place : Nat) : Placement :=
  { placement.counted shape with
    slots := placement.slots.set index (some place)
    placed := placement.placed + 1 }

@[simp]
theorem slots_put (placement : Placement) (shape : Shape) (index place : Nat) :
    (placement.put shape index place).slots = placement.slots.set index (some place) := rfl

@[simp]
theorem placed_put (placement : Placement) (shape : Shape) (index place : Nat) :
    (placement.put shape index place).placed = placement.placed + 1 := rfl

theorem place_eq (free : placement.slots[index]? = some none)
    (inside : place < placement.slots.length) :
    (placement.counted shape).place index (8 * place : Nat) =
      .ok (placement.put shape index place) := by
  have slot : (placement.counted shape).slots.getD index (some 0) = none := by
    cases shape <;> simp [counted, free]
  have width : (placement.counted shape).slots.length = placement.slots.length := by
    cases shape <;> rfl
  have fits : ¬ (((8 * place : Nat) : Int) < 0 ∨ ((8 * place : Nat) : Int) % 8 ≠ 0 ∨
      (placement.slots.length : Int) ≤ ((8 * place : Nat) : Int) / 8) := by omega
  have target : (((8 * place : Nat) : Int) / 8).toNat = place := by omega
  simp only [Placement.place, width, if_neg fits, slot, target]
  cases shape <;> rfl

/-- The instructions that fetch a byte have it placed by the shift behind them. -/
theorem scan_fetch {fetch : List Instruction} (fetches : Fetch shape index fetch)
    (counts : shape = .sequential → placement.sequential = index) {value : Int32}
    (shift : shiftAfter? rest = some value) :
    placement.scan before (fetch ++ rest) =
      (placement.counted shape).place index value.toInt >>= fun next =>
        next.scan (fetch.reverse ++ before) rest := by
  cases fetches with
  | @indexed _ buffer constant load loads pushes element =>
    obtain ⟨known, isConstant, same⟩ := pushes.exists_i4Constant?
    have passive : ∀ instruction ∈ [buffer, constant], Passive instruction := by
      simpa using ⟨passive_of_notMem (notMem_of_bufferLoad loads),
        passive_of_notMem (notMem_of_pushes pushes)⟩
    have fetched : placement.streamIndex? (constant :: buffer :: before) load = some index := by
      unfold streamIndex?
      rw [element]
      simp [isConstant, same, isBufferLoad_of_mem loads]
    have notCall : load.isReadByte = false := by
      simp [Instruction.isReadByte, element, OpCode.isCall]
    change placement.scan before ([buffer, constant] ++ load :: rest) = _
    rw [scan_append passive]
    change placement.scan (constant :: buffer :: before) (load :: rest) = _
    rw [scan, fetched]
    simp only [notCall, shift]
    rfl
  | @sequential _ call reads =>
    have isCall : call.isReadByte = true := Instruction.isReadByte_iff.mpr reads
    have fetched : placement.streamIndex? before call = some index := by
      unfold streamIndex?
      split
      · rename_i element
        rcases reads.1 with isCall | isCall <;> simp [isCall] at element
      · rw [if_pos isCall, counts rfl]
    change placement.scan before (call :: rest) = _
    rw [scan, fetched]
    simp only [isCall, shift]
    rfl

/-- A group has its byte placed, and nothing else happens. -/
theorem scan_group {group : List Instruction} (grouped : Group shape index place group)
    (counts : shape = .sequential → placement.sequential = index)
    (free : placement.slots[index]? = some none) (inside : place < placement.slots.length)
    (none : shiftAfter? rest = some 0) :
    placement.scan before (group ++ rest) =
      (placement.put shape index place).scan (group.reverse ++ before) rest := by
  obtain @⟨fetch, conversions, shift, fetches, converts, shifts⟩ := grouped
  obtain ⟨value, shifted, same⟩ := exists_shiftAfter? converts shifts none
  have placed : (placement.counted shape).place index value.toInt =
      .ok (placement.put shape index place) := by
    rw [same]
    exact_mod_cast place_eq free inside
  have passive : ∀ instruction ∈ conversions ++ shift, Passive instruction := by
    intro instruction member
    rcases List.mem_append.mp member with conversion | shifting
    · exact passive_of_notMem (OpCode.notMem_assembling_of_conversion (converts _ conversion))
    · exact shifts.passive shifting
  rw [List.append_assoc, scan_fetch fetches counts shifted, placed]
  change (placement.put shape index place).scan _ _ = _
  rw [scan_append passive]
  simp only [List.reverse_append, List.append_assoc]

/-- A placement that awaits the bytes with some indexes. -/
structure Awaits (placement : Placement) (shape : Shape) (order indexes : List Nat) : Prop where
  distinct : indexes.Nodup
  /-- The bytes of a stream come in their order. -/
  counts : shape = .sequential → indexes = List.range' placement.sequential indexes.length
  free : ∀ index ∈ indexes, placement.slots[index]? = some none
  inside : ∀ place ∈ order, place < placement.slots.length

namespace Awaits

variable {order indexes : List Nat}

theorem counts_cons (awaits : placement.Awaits shape order (index :: indexes))
    (isSequential : shape = .sequential) :
    placement.sequential = index ∧
      indexes = List.range' (placement.sequential + 1) indexes.length := by
  have range := awaits.counts isSequential
  rw [List.length_cons, List.range'_succ, List.cons.injEq] at range
  exact ⟨range.1.symm, range.2⟩

/-- A byte that has its place is awaited no more. -/
theorem put (awaits : placement.Awaits shape order (index :: indexes)) (place : Nat) :
    (placement.put shape index place).Awaits shape order indexes where
  distinct := (List.nodup_cons.mp awaits.distinct).2
  counts := by
    rintro rfl
    exact (awaits.counts_cons rfl).2
  free := by
    intro other member
    have different : index ≠ other := by
      rintro rfl
      exact (List.nodup_cons.mp awaits.distinct).1 member
    rw [slots_put, List.getElem?_set_ne different]
    exact awaits.free other (List.mem_cons_of_mem _ member)
  inside := by
    simpa using awaits.inside

end Awaits

/-- A body has each of its bytes placed. -/
theorem exists_scan (placement : Placement) (before : List Instruction)
    {order indexes : List Nat} {body : List Instruction}
    (assembles : Assembles shape order indexes body)
    (awaits : placement.Awaits shape order indexes) :
    ∃ final, placement.scan before body = .ok final ∧
      final.placed = placement.placed + indexes.length ∧
      ∀ index, final.slots[index]? =
        if index ∈ indexes then order[index]?.map some else placement.slots[index]? := by
  induction assembles generalizing placement before with
  | @done filler idle =>
    refine ⟨placement, ?_, by simp, by simp⟩
    rw [← List.append_nil filler, scan_append fun _ member => idle.passive member]
    rfl
  | @next filler group rest index place indexes idle placed grouped later ih =>
    have empty : placement.slots[index]? = some none := awaits.free index List.mem_cons_self
    have low : place < placement.slots.length := awaits.inside place (List.mem_of_getElem? placed)
    rw [scan_append fun _ member => idle.passive member,
      scan_group grouped (fun isSequential => (awaits.counts_cons isSequential).1) empty low
        later.shiftAfter?]
    obtain ⟨final, scanned, count, slots⟩ := ih _ _ (awaits.put place)
    refine ⟨final, scanned, ?_, fun other => ?_⟩
    · rw [count, placed_put, List.length_cons]
      omega
    · rw [slots other, slots_put]
      by_cases same : other = index
      · subst same
        have fresh : other ∉ indexes := (List.nodup_cons.mp awaits.distinct).1
        have within : other < placement.slots.length := (List.getElem?_eq_some_iff.mp empty).1
        simp [fresh, placed, within]
      · simp [same, List.getElem?_set_ne (Ne.symm same)]

end Placement

/-! ### Whole bodies -/

theorem Shape.Visits.perm {shape : Shape} {width : Nat} {indexes : List Nat}
    (visits : shape.Visits width indexes) : indexes.Perm (List.range width) := by
  cases shape with
  | indexed => exact visits
  | sequential => exact List.Perm.of_eq visits

/-- At the start all bytes of a number are awaited. -/
theorem awaits_start (permutation : Permutation) {shape : Shape} {indexes : List Nat}
    (visits : shape.Visits permutation.width indexes) :
    Placement.Awaits { slots := List.replicate permutation.width none } shape permutation.order
      indexes where
  distinct := visits.perm.nodup_iff.mpr List.nodup_range
  counts := by
    rintro rfl
    have count : indexes.length = permutation.width := by simpa using visits.perm.length_eq
    rw [count, ← List.range_eq_range']
    exact visits
  free := by
    intro index member
    have below : index < permutation.width := List.mem_range.mp (visits.perm.mem_iff.mp member)
    simp [below]
  inside := by
    intro place member
    simpa using permutation.mem_order.mp member

/-- A body that puts together all bytes of a number reveals the permutation it was written for. -/
theorem ofReaderBody_assembled (permutation : Permutation) (known : permutation.width ∈ widths)
    {shape : Shape} {indexes : List Nat} (visits : shape.Visits permutation.width indexes)
    {body : List Instruction} (assembles : Assembles shape permutation.order indexes body) :
    ofReaderBody body permutation.width = .ok permutation := by
  obtain ⟨final, scanned, placed, slots⟩ :=
    Placement.exists_scan _ [] assembles (permutation.awaits_start visits)
  have enough : final.placed = permutation.width := by
    simpa [visits.perm.length_eq] using placed
  have complete : final.slots = permutation.order.map some := by
    apply List.ext_getElem?
    intro index
    rw [slots, List.getElem?_map]
    split_ifs with member
    · rfl
    · have above : permutation.width ≤ index := by
        simpa [visits.perm.mem_iff] using member
      simp [above, show permutation.order.length ≤ index from above]
  have read : final.slots.mapM id = some permutation.order := by
    rw [complete, List.mapM_map]
    exact List.mapM_pure.trans (by simp)
  rw [ofReaderBody, scanned]
  simp [bind, Except.bind, enough, read, ofOrder_eq_ok_iff, known]

theorem Filler.of_opcodes {code : List Instruction}
    (others : ∀ instruction ∈ code, instruction.opcode ≠ .ldelemU1 ∧ instruction.opcode ≠ .shl ∧
      instruction.opcode ≠ .call ∧ instruction.opcode ≠ .callvirt) : Filler code := by
  intro instruction member
  obtain ⟨notElement, notShift, notCall, notVirtual⟩ := others instruction member
  exact ⟨notElement, notShift, fun reads => reads.1.elim notCall notVirtual⟩

namespace Scattered

theorem isPerm_scattered : [2, 0, 3, 1].Perm (List.range 4) := by decide

/-- A permutation of four bytes. -/
def four : Permutation := ⟨[2, 0, 3, 1], isPerm_scattered⟩

/-- Puts a number together from a buffer, its last byte first. -/
def indexed : List Instruction :=
  [⟨.nop, .none, none⟩] ++
  ([⟨.ldloc0, .none, none⟩, ⟨.ldcI43, .none, none⟩, ⟨.ldelemU1, .none, none⟩] ++
    ([⟨.convU4, .none, none⟩] ++ [⟨.ldcI48, .none, none⟩, ⟨.shl, .none, none⟩]) ++
  ([] ++
  ([⟨.ldargS, .argument 4, none⟩, ⟨.ldcI4S, .immediate (.int8 0), none⟩,
      ⟨.ldelemU1, .none, none⟩] ++
    ([] ++ [⟨.ldcI4S, .immediate (.int8 16), none⟩, ⟨.shl, .none, none⟩]) ++
  ([⟨.or, .none, none⟩] ++
  ([⟨.ldsfld, .none, none⟩, ⟨.ldcI4, .immediate (.int32 2), none⟩, ⟨.ldelemU1, .none, none⟩] ++
    ([⟨.convI4, .none, none⟩, ⟨.convU4, .none, none⟩] ++
      [⟨.ldcI4, .immediate (.int32 24), none⟩, ⟨.shl, .none, none⟩]) ++
  ([⟨.or, .none, none⟩] ++
  ([⟨.ldarg1, .none, none⟩, ⟨.ldcI41, .none, none⟩, ⟨.ldelemU1, .none, none⟩] ++ ([] ++ []) ++
  [⟨.or, .none, none⟩, ⟨.ret, .none, none⟩])))))))

theorem isPerm_exchanged : [1, 0].Perm (List.range 2) := by decide

/-- A permutation of two bytes. -/
def two : Permutation := ⟨[1, 0], isPerm_exchanged⟩

/-- Calls for the next byte. -/
def read (opcode : OpCode) : Instruction :=
  ⟨opcode, .method ⟨.primitive .object, "ReadByte", { ret := .primitive .u1 }, []⟩, none⟩

/-- Puts a number together from a stream. -/
def sequential : List Instruction :=
  [⟨.ldarg0, .none, none⟩] ++
  ([read .callvirt] ++
    ([⟨.convU2, .none, none⟩] ++ [⟨.ldcI48, .none, none⟩, ⟨.shl, .none, none⟩]) ++
  ([⟨.ldarg0, .none, none⟩] ++
  ([read .call] ++ ([⟨.convU2, .none, none⟩] ++ []) ++
  [⟨.or, .none, none⟩])))

theorem assembles_indexed : Assembles .indexed four.order [3, 0, 2, 1] indexed := by
  refine .next (Filler.of_opcodes (by decide)) rfl
    (.intro (.indexed (by decide) (.short rfl) rfl) (by decide +kernel) (.left (.short rfl) rfl)) ?_
  refine .next (Filler.of_opcodes (by decide)) rfl
    (.intro (.indexed (by decide) (.byte rfl) rfl) (by simp) (.left (.byte rfl) rfl)) ?_
  refine .next (Filler.of_opcodes (by decide)) rfl
    (.intro (.indexed (by decide) (.word rfl) rfl) (by decide +kernel) (.left (.word rfl) rfl)) ?_
  refine .next (Filler.of_opcodes (by decide)) rfl
    (.intro (.indexed (by decide) (.short rfl) rfl) (by simp) (.none rfl)) ?_
  exact .done (Filler.of_opcodes (by decide))

theorem assembles_sequential : Assembles .sequential two.order [0, 1] sequential := by
  have reads : ∀ opcode, opcode = .call ∨ opcode = .callvirt → (read opcode).ReadsByte :=
    fun _ call => ⟨call, _, rfl, rfl⟩
  refine .next (Filler.of_opcodes (by decide)) rfl
    (.intro (.sequential (reads _ (.inr rfl))) (by decide +kernel) (.left (.short rfl) rfl)) ?_
  refine .next (Filler.of_opcodes (by decide)) rfl
    (.intro (.sequential (reads _ (.inl rfl))) (by decide +kernel) (.none rfl)) ?_
  exact .done (Filler.of_opcodes (by decide))

theorem ofReaderBody_scattered :
    (Shape.indexed.Visits four.width [3, 0, 2, 1] ∧
      Assembles .indexed four.order [3, 0, 2, 1] indexed ∧
      ofReaderBody indexed four.width = .ok four) ∧
    Shape.sequential.Visits two.width [0, 1] ∧ Assembles .sequential two.order [0, 1] sequential ∧
      ofReaderBody sequential two.width = .ok two := by
  have mixed : Shape.indexed.Visits four.width [3, 0, 2, 1] := by
    change [3, 0, 2, 1].Perm (List.range 4)
    decide
  have straight : Shape.sequential.Visits two.width [0, 1] := rfl
  exact ⟨⟨mixed, assembles_indexed,
      four.ofReaderBody_assembled (by decide) mixed assembles_indexed⟩,
    straight, assembles_sequential,
      two.ofReaderBody_assembled (by decide) straight assembles_sequential⟩

end Scattered

end Permutation

end CilRecovery
