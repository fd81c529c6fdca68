import CilRecovery.Proofs.Chain
import CilRecovery.Proofs.Linking
import CilRecovery.Proofs.Reading

/-!
Virtual programs: what a protector writes and a decoder reads back. A program is a sequence of
virtual instructions and guarded ranges, which hold programs in turn. It is encoded with a profile
and passwords, and it means lines of code once its references are resolved.
-/
namespace CilRecovery

/-- An opcode of a catalog whose code fits in the two bytes that codes take. -/
structure Catalog.Entry (catalog : Catalog) where
  opcode : VirtualOpcode
  listed : opcode ∈ catalog.opcodes
  fits : opcode.code.toNat < 0x10000

namespace Catalog.Entry

variable {catalog : Catalog}

def code (entry : Entry catalog) : UInt16 := entry.opcode.code.toUInt16

def encode (profile : Profile) (entry : Entry catalog) : Bytes :=
  (profile.get .two).encode entry.code.toNat

/-- A code leads back to its opcode, since no other has it. -/
theorem get?_code (entry : Entry catalog) :
    catalog.get? entry.code.toUInt32 = some entry.opcode := by
  have whole : entry.code.toUInt32 = entry.opcode.code := by
    apply UInt32.toNat_inj.mp
    rw [UInt16.toNat_toUInt32, code, UInt32.toNat_toUInt16]
    exact Nat.mod_eq_of_lt entry.fits
  rw [whole, get?]
  have distinct := catalog.distinct
  have listed := entry.listed
  generalize catalog.opcodes = opcodes at distinct listed ⊢
  induction opcodes with
  | nil => cases listed
  | cons first rest ih =>
    rw [List.map_cons, List.nodup_cons] at distinct
    rcases List.mem_cons.mp listed with same | later
    · rw [same, List.find?_cons_of_pos (by simp)]
    · have apart : first.code ≠ entry.opcode.code := by
        intro same
        rw [same] at distinct
        exact distinct.1 (List.mem_map_of_mem later)
      rw [List.find?_cons_of_neg (by simpa using apart)]
      exact ih distinct.2 later

end Catalog.Entry

namespace Resolver

/-- What an operation finds, and the session after it. -/
def found? (operation : ResolveM (Option α)) (session : Session) : Option (α × Session) :=
  match operation.run.run session with
  | (.ok (some value), after) => some (value, after)
  | _ => none

theorem found?_eq_some_iff {operation : ResolveM (Option α)} {session after : Session} {value : α} :
    found? operation session = some (value, after) ↔
      operation.run.run session = (.ok (some value), after) := by
  rw [found?]
  constructor
  · intro found
    split at found
    · rename_i same
      cases found
      exact same
    · cases found
  · intro ends
    rw [ends]

end Resolver

/-- The operand that a record gives where a kind of reference is wanted. -/
def InlineOperand.operand? : InlineOperand → Resolved → Option Operand
  | .inlineString, .string text => some (.string text)
  | .inlineType, .type sig => some (.type sig)
  | .inlineField, .field ref => some (.field ref)
  | .inlineMethod, .method ref => some (.method ref)
  | .inlineTok, .string _ => none
  | .inlineTok, resolved => some (.token resolved)
  | _, _ => none

/-- An operand of a CIL opcode in a virtual program, by its operand type. -/
inductive VirtualOperand : InlineOperand → Type where
  | none : VirtualOperand .inlineNone
  | target (offset : UInt32) : VirtualOperand .inlineBrTarget
  | shortTarget (offset : UInt32) : VirtualOperand .shortInlineBrTarget
  | switch (offsets : List UInt32) (fits : offsets.length < 0x100000000) :
    VirtualOperand .inlineSwitch
  | int32 (value : Int32) : VirtualOperand .inlineI
  | int64 (value : Int64) : VirtualOperand .inlineI8
  | float64 (bits : UInt64) : VirtualOperand .inlineR
  | float32 (bits : UInt32) : VirtualOperand .shortInlineR
  | byte (value : UInt8) : VirtualOperand .shortInlineI
  | slot (index : UInt16) : VirtualOperand .inlineVar
  | shortSlot (index : UInt8) : VirtualOperand .shortInlineVar
  /-- The position of an operand record. -/
  | reference (position : UInt32) (is : kind.isReference = true) : VirtualOperand kind

namespace VirtualOperand

/-- The operand in the code, at its declared width. -/
def encode (profile : Profile) : VirtualOperand kind → Bytes
  | none => []
  | target offset | shortTarget offset => (profile.get .four).encode offset.toNat
  | switch offsets _ =>
    (profile.get .four).encode offsets.length ++
      offsets.flatMap fun offset => (profile.get .four).encode offset.toNat
  | int32 value => (profile.get .four).encode value.toUInt32.toNat
  | int64 value => (profile.get .eight).encode value.toUInt64.toNat
  | float64 bits => (profile.get .eight).encode bits.toNat
  | float32 bits => (profile.get .four).encode bits.toNat
  | byte value => [value]
  | slot index => (profile.get .two).encode index.toNat
  | shortSlot index => [index]
  | reference position _ => (profile.get .four).encode position.toNat

/-- How many bytes the operand takes. -/
def size : VirtualOperand kind → Nat
  | none => 0
  | target _ | shortTarget _ | int32 _ | float32 _ | reference _ _ => 4
  | switch offsets _ => 4 + 4 * offsets.length
  | int64 _ | float64 _ => 8
  | byte _ | shortSlot _ => 1
  | slot _ => 2

@[simp]
theorem length_encode (profile : Profile) (operand : VirtualOperand kind) :
    (operand.encode profile).length = operand.size := by
  cases operand with
  | switch offsets fits =>
    simp [encode, size, List.length_flatMap, Width.bytes, Nat.mul_comm]
  | _ => simp [encode, size, Width.bytes]

/-- What the operand stands for under an opcode, and the session after it was resolved. -/
def meaning? (resolver : Resolver) (opcode : OpCode) (session : Session) :
    VirtualOperand kind → Option (RawOperand × Session)
  | none => some (.ready .none, session)
  | target offset | shortTarget offset => some (.target offset.toNat, session)
  | switch offsets _ => some (.switch (offsets.map UInt32.toNat), session)
  | int32 value => some (.ready (.immediate (.int32 value)), session)
  | int64 value => some (.ready (.immediate (.int64 value)), session)
  | float64 bits => some (.ready (.immediate (.float64 bits)), session)
  | float32 bits => some (.ready (.immediate (.float32 bits)), session)
  | byte value =>
    some (.ready (.immediate (if opcode = .ldcI4S then .int8 value.toInt8 else .uint8 value)),
      session)
  | slot index =>
    some (.ready (if opcode.indexesArguments then .argument index.toNat else .local index.toNat),
      session)
  | shortSlot index =>
    some (.ready (if opcode.indexesArguments then .argument index.toNat else .local index.toNat),
      session)
  | reference position _ => do
    let (resolved, after) ← Resolver.found? (resolver.resolve position) session
    let operand ← kind.operand? resolved
    return (.ready operand, after)

end VirtualOperand

/-- The operand of a virtual instruction without effect: any bytes of the declared width. -/
inductive IgnoredOperand (kind : InlineOperand) where
  | plain (bytes : Bytes) (fills : kind.virtualWidth? = some bytes.length)
  /-- A jump table with some number of entries. -/
  | table (count : UInt32) (bytes : Bytes) (isTable : kind.virtualWidth? = none)
    (fills : bytes.length = 4 * count.toNat)

namespace IgnoredOperand

def encode (profile : Profile) : IgnoredOperand kind → Bytes
  | plain bytes _ => bytes
  | table count bytes _ _ => (profile.get .four).encode count.toNat ++ bytes

def size : IgnoredOperand kind → Nat
  | plain bytes _ => bytes.length
  | table _ bytes _ _ => 4 + bytes.length

@[simp]
theorem length_encode (profile : Profile) (operand : IgnoredOperand kind) :
    (operand.encode profile).length = operand.size := by
  cases operand <;> simp [encode, size, Width.bytes]

end IgnoredOperand

/-- A virtual instruction. -/
inductive VirtualItem (catalog : Catalog) where
  | cil (entry : catalog.Entry) (opcode : OpCode) (is : entry.opcode.kind = .cil opcode)
    (operand : VirtualOperand entry.opcode.operand)
  | call (entry : catalog.Entry) (is : entry.opcode.kind = .special .packedCall)
    (takesWord : entry.opcode.operand.virtualWidth? = some 4) (position : UInt32)
  | noEffect (entry : catalog.Entry) (is : entry.opcode.kind = .special .noEffect)
    (operand : IgnoredOperand entry.opcode.operand)

namespace VirtualItem

variable {catalog : Catalog}

def encode (profile : Profile) : VirtualItem catalog → Bytes
  | cil entry _ _ operand => entry.encode profile ++ operand.encode profile
  | call entry _ _ position => entry.encode profile ++ (profile.get .four).encode position.toNat
  | noEffect entry _ operand => entry.encode profile ++ operand.encode profile

def size : VirtualItem catalog → Nat
  | cil _ _ _ operand => 2 + operand.size
  | call _ _ _ _ => 6
  | noEffect _ _ operand => 2 + operand.size

@[simp]
theorem length_encode (profile : Profile) (item : VirtualItem catalog) :
    (item.encode profile).length = item.size := by
  cases item <;> simp [encode, size, Catalog.Entry.encode, Width.bytes]

theorem size_pos (item : VirtualItem catalog) : 0 < item.size := by
  cases item <;> simp only [size] <;> omega

/-- The code that an instruction stands for, if any, and the session after it was resolved. -/
def meaning? (resolver : Resolver) (session : Session) :
    VirtualItem catalog → Option (Option (OpCode × RawOperand) × Session)
  | cil entry opcode _ operand => do
    let form := opcode.formFor entry.opcode.operand
    let (raw, after) ← operand.meaning? resolver form session
    return (some (form, raw), after)
  | call _ _ _ position => do
    let ((method, isVirtual), after) ← Resolver.found? (resolver.resolveCall position) session
    return (some (if isVirtual then .callvirt else .call, .ready (.method method)), after)
  | noEffect _ _ _ => some (none, session)

end VirtualItem

/-- A virtual program. -/
inductive VirtualProgram (catalog : Catalog) where
  | done
  | next (item : VirtualItem catalog) (rest : VirtualProgram catalog)
  | guarded (entry : catalog.Entry) (is : entry.opcode.kind = .special .chainBoundary)
    (takesWord : entry.opcode.operand.virtualWidth? = some 4)
    (inner rest : VirtualProgram catalog)

namespace VirtualProgram

variable {catalog : Catalog}

/-- How many guarded ranges a program has, nested ones included. -/
def ranges : VirtualProgram catalog → Nat
  | done => 0
  | next _ rest => rest.ranges
  | guarded _ _ _ inner rest => 1 + inner.ranges + rest.ranges

def size : VirtualProgram catalog → Nat
  | done => 0
  | next item rest => item.size + rest.size
  | guarded _ _ _ inner rest => 6 + inner.size + rest.size

/-- The code of a program whose first guarded range has the number `ordinal`. There is none if a
range lacks its password or is too long. -/
def encode? (profile : Profile) (passwords : PasswordStore) (token : Token) :
    (ordinal : Nat) → VirtualProgram catalog → Option Bytes
  | _, done => some []
  | ordinal, next item rest => do
    let code ← rest.encode? profile passwords token ordinal
    return item.encode profile ++ code
  | ordinal, guarded entry _ _ inner rest => do
    let password ← passwords.get? token ordinal
    let plain ← inner.encode? profile passwords token (ordinal + 1)
    let code ← rest.encode? profile passwords token (ordinal + 1 + inner.ranges)
    if plain.length < 0x80000000 then
      let cipher := (Cipher.Chain.Key.forRange password token ordinal).encrypt plain
      some (entry.encode profile ++ (profile.get .four).encode cipher.length ++ cipher ++ code)
    else none

section Encoding

variable {profile : Profile} {passwords : PasswordStore} {token : Token} {ordinal : Nat}
  {program : VirtualProgram catalog} {code : Bytes}

theorem exists_of_encode?_next {item : VirtualItem catalog}
    (encoded : (next item program).encode? profile passwords token ordinal = some code) :
    ∃ tail, program.encode? profile passwords token ordinal = some tail ∧
      code = item.encode profile ++ tail := by
  rw [encode?] at encoded
  obtain ⟨tail, found, same⟩ := Option.bind_eq_some_iff.mp encoded
  exact ⟨tail, found, (Option.some.inj same).symm⟩

theorem exists_of_encode?_guarded {entry : catalog.Entry}
    {is : entry.opcode.kind = .special .chainBoundary}
    {takesWord : entry.opcode.operand.virtualWidth? = some 4} {inner : VirtualProgram catalog}
    (encoded : (guarded entry is takesWord inner program).encode? profile passwords token ordinal =
      some code) :
    ∃ password plain tail, passwords.get? token ordinal = some password ∧
      inner.encode? profile passwords token (ordinal + 1) = some plain ∧
      program.encode? profile passwords token (ordinal + 1 + inner.ranges) = some tail ∧
      plain.length < 0x80000000 ∧
      code = entry.encode profile ++ ((profile.get .four).encode plain.length ++
        ((Cipher.Chain.Key.forRange password token ordinal).encrypt plain ++ tail)) := by
  rw [encode?] at encoded
  obtain ⟨password, known, encoded⟩ := Option.bind_eq_some_iff.mp encoded
  obtain ⟨plain, inside, encoded⟩ := Option.bind_eq_some_iff.mp encoded
  obtain ⟨tail, behind, encoded⟩ := Option.bind_eq_some_iff.mp encoded
  split at encoded
  · rename_i short
    refine ⟨password, plain, tail, known, inside, behind, short, ?_⟩
    rw [← Option.some.inj encoded, Cipher.Chain.Key.length_encrypt, List.append_assoc,
      List.append_assoc]
  · cases encoded

theorem length_encode? (encoded : program.encode? profile passwords token ordinal = some code) :
    code.length = program.size := by
  induction program generalizing ordinal code with
  | done => cases encoded; rfl
  | next item rest ih =>
    obtain ⟨tail, found, rfl⟩ := exists_of_encode?_next encoded
    simp [size, ih found]
  | guarded entry is takesWord inner rest ihInner ihRest =>
    obtain ⟨password, plain, tail, _, inside, behind, _, rfl⟩ := exists_of_encode?_guarded encoded
    simp only [size, List.length_append, Catalog.Entry.encode, Profile.length_encode,
      Cipher.Chain.Key.length_encrypt, ihInner inside, ihRest behind, Width.bytes]
    omega

end Encoding

/-- The lines that a program at a virtual offset stands for, and the session after its references
were resolved in order. There are none if a reference does not resolve to what is wanted. -/
def meaning? (resolver : Resolver) :
    (offset : Nat) → Session → VirtualProgram catalog → Option (List Line × Session)
  | _, session, done => some ([], session)
  | offset, session, next item rest => do
    let (content, between) ← item.meaning? resolver session
    let (lines, after) ← rest.meaning? resolver (offset + item.size) between
    return (⟨offset, content⟩ :: lines, after)
  | offset, session, guarded _ _ _ inner rest => do
    let (inside, between) ← inner.meaning? resolver (offset + 6) session
    let (lines, after) ← rest.meaning? resolver (offset + 6 + inner.size) between
    return (⟨offset, none⟩ :: inside ++ lines, after)

section Meaning

variable {resolver : Resolver} {offset : Nat} {session after : Session}
  {program : VirtualProgram catalog} {lines : List Line}

theorem exists_of_meaning?_next {item : VirtualItem catalog}
    (means : (next item program).meaning? resolver offset session = some (lines, after)) :
    ∃ content between tail, item.meaning? resolver session = some (content, between) ∧
      program.meaning? resolver (offset + item.size) between = some (tail, after) ∧
      lines = ⟨offset, content⟩ :: tail := by
  rw [meaning?] at means
  obtain ⟨⟨content, between⟩, first, means⟩ := Option.bind_eq_some_iff.mp means
  obtain ⟨⟨tail, last⟩, second, same⟩ := Option.bind_eq_some_iff.mp means
  cases same
  exact ⟨content, between, tail, first, second, rfl⟩

theorem exists_of_meaning?_guarded {entry : catalog.Entry}
    {is : entry.opcode.kind = .special .chainBoundary}
    {takesWord : entry.opcode.operand.virtualWidth? = some 4} {inner : VirtualProgram catalog}
    (means : (guarded entry is takesWord inner program).meaning? resolver offset session =
      some (lines, after)) :
    ∃ inside between tail, inner.meaning? resolver (offset + 6) session = some (inside, between) ∧
      program.meaning? resolver (offset + 6 + inner.size) between = some (tail, after) ∧
      lines = ⟨offset, none⟩ :: (inside ++ tail) := by
  rw [meaning?] at means
  obtain ⟨⟨inside, between⟩, first, means⟩ := Option.bind_eq_some_iff.mp means
  obtain ⟨⟨tail, last⟩, second, same⟩ := Option.bind_eq_some_iff.mp means
  cases same
  exact ⟨inside, between, tail, first, second, rfl⟩

/-- The lines of a program stand inside it. -/
theorem bounds_of_meaning? (means : program.meaning? resolver offset session = some (lines, after))
    {place : Nat} (member : place ∈ Listing.offsets lines) :
    offset ≤ place ∧ place < offset + program.size := by
  induction program generalizing offset session after lines with
  | done => cases means; cases member
  | next item rest ih =>
    obtain ⟨content, between, tail, _, second, rfl⟩ := exists_of_meaning?_next means
    have positive := item.size_pos
    rw [size]
    rcases List.mem_cons.mp member with rfl | later
    · omega
    · have := ih second later
      omega
  | guarded entry is takesWord inner rest ihInner ihRest =>
    obtain ⟨inside, between, tail, first, second, rfl⟩ := exists_of_meaning?_guarded means
    rw [Listing.offsets, List.map_cons, List.map_append] at member
    rw [size]
    rcases List.mem_cons.mp member with rfl | member
    · omega
    · rcases List.mem_append.mp member with here | later
      · have := ihInner first here
        omega
      · have := ihRest second later
        omega

/-- The lines of a program stand at rising offsets. -/
theorem rising_of_meaning?
    (means : program.meaning? resolver offset session = some (lines, after)) :
    (Listing.offsets lines).Pairwise (· < ·) := by
  induction program generalizing offset session after lines with
  | done => cases means; exact .nil
  | next item rest ih =>
    obtain ⟨content, between, tail, _, second, rfl⟩ := exists_of_meaning?_next means
    have positive := item.size_pos
    refine List.pairwise_cons.mpr ⟨fun other member => ?_, ih second⟩
    have := bounds_of_meaning? second member
    exact Nat.lt_of_lt_of_le (Nat.lt_add_of_pos_right positive) this.1
  | guarded entry is takesWord inner rest ihInner ihRest =>
    obtain ⟨inside, between, tail, first, second, rfl⟩ := exists_of_meaning?_guarded means
    rw [Listing.offsets, List.map_cons, List.map_append]
    refine List.pairwise_cons.mpr ⟨fun other member => ?_, List.pairwise_append.mpr
      ⟨ihInner first, ihRest second, fun low before high behind => ?_⟩⟩
    · change offset < other
      rcases List.mem_append.mp member with here | later
      · have := bounds_of_meaning? first here
        omega
      · have := bounds_of_meaning? second later
        omega
    · have := bounds_of_meaning? first before
      have := bounds_of_meaning? second behind
      omega

end Meaning

end VirtualProgram

end CilRecovery
