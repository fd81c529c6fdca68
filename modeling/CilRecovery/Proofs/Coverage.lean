import CilRecovery.Proofs.Handlers
import CilRecovery.Proofs.Places

/-!
What exception handlers cover. The handlers of a decoded body enclose exactly the instructions that
stand between the virtual offsets of their records, wherever the boundaries lie: on an instruction,
on one without effect, at the start of a guarded range or at the end of the code.
-/
namespace CilRecovery

namespace DecodedBody

/-- A range of labels encloses the instructions between two virtual offsets, and no others. -/
def Encloses (body : DecodedBody) (first last : Nat) (labels : LabelRange) : Prop :=
  ∀ index, labels.start ≤ index ∧ index < labels.finish ↔
    ∃ offset, body.offsetAt? index = some offset ∧ first ≤ offset ∧ offset < last

/-- How many instructions stand before a virtual offset. -/
def countBefore (body : DecodedBody) (offset : Nat) : Nat :=
  body.instructions.countP fun instruction => instruction.virtualOffset.any (· < offset)

end DecodedBody

/-- A handler covers the code that its record names. -/
structure HandlerRecord.Covers (body : DecodedBody) (record : HandlerRecord)
    (handler : ExceptionHandler) : Prop where
  kind : HandlerKind.ofNat? record.code.toNat = some handler.kind
  guards : body.Encloses record.guarded.start.toNat
    (record.guarded.start.toNat + record.guarded.length.toNat) handler.guarded
  handles : body.Encloses record.handler.start.toNat
    (record.handler.start.toNat + record.handler.length.toNat) handler.handler
  filters : ∀ label ∈ handler.filter, label = body.countBefore record.filter.toNat
  isSome_filter : handler.filter.isSome ↔ record.code = 1
  isSome_catchType : handler.catchType.isSome ↔ record.code = 0

namespace DecodedBody.Lists

variable {body : DecodedBody} {length : Nat} {lines : List Line}

theorem before_eq_countBefore (lists : body.Lists length lines) (offset : Nat) :
    Listing.before lines offset = body.countBefore offset := by
  have counted := congrArg (List.countP fun place => place.any (· < offset)) lists.placed
  rw [List.countP_map, List.countP_map] at counted
  rw [Listing.before_eq_countP]
  exact counted.symm

/-- An end past the largest offset there is lies behind the code, and so does that offset. -/
theorem before_finish (lists : body.Lists length lines) (small : length ≤ 0xFFFFFFFF)
    (range : OffsetRange) :
    Listing.before lines range.finish =
      Listing.before lines (range.start.toNat + range.length.toNat) := by
  rcases Nat.le_total (range.start.toNat + range.length.toNat) 0xFFFFFFFF with fits | past
  · rw [OffsetRange.finish, Nat.min_eq_left fits]
  · rw [OffsetRange.finish, Nat.min_eq_right past, lists.before_end small,
      lists.before_end (Nat.le_trans small past)]

/-- The labels of a range of offsets enclose its instructions. -/
theorem encloses (lists : body.Lists length lines) (small : length ≤ 0xFFFFFFFF)
    {range : OffsetRange} {labels : LabelRange} (found : body.labelRange range = .ok labels) :
    body.Encloses range.start.toNat (range.start.toNat + range.length.toNat) labels := by
  intro index
  rw [lists.labelRange_eq found, lists.before_finish small]
  constructor
  · rintro ⟨start, finish⟩
    have inside := Nat.lt_of_lt_of_le finish (lists.before_le _)
    obtain ⟨offset, there⟩ := lists.exists_offsetAt? inside
    refine ⟨offset, there, Nat.not_lt.mp fun below => ?_, (lists.lt_before_iff there _).mp finish⟩
    exact Nat.not_lt.mpr start ((lists.lt_before_iff there _).mpr below)
  · rintro ⟨offset, there, start, finish⟩
    refine ⟨Nat.not_lt.mp fun below => ?_, (lists.lt_before_iff there _).mpr finish⟩
    exact Nat.not_lt.mpr start ((lists.lt_before_iff there _).mp below)

end DecodedBody.Lists

namespace HandlerRecord

theorem ofNat?_of_kind {record : HandlerRecord} {kind : HandlerKind} (is : record.kind = .ok kind) :
    HandlerKind.ofNat? record.code.toNat = some kind := by
  rw [HandlerRecord.kind] at is
  cases found : HandlerKind.ofNat? record.code.toNat with
  | none =>
    rw [found] at is
    cases is
  | some known =>
    rw [found] at is
    cases is
    rfl

/-- The number of a clause kind is the one in its record. -/
theorem flags_of_kind {record : HandlerRecord} {kind : HandlerKind} (is : record.kind = .ok kind) :
    kind.flags = record.code.toNat := by
  have known := ofNat?_of_kind is
  unfold HandlerKind.ofNat? at known
  split at known <;> cases known <;> simp_all [HandlerKind.flags]

/-- A handler that stands for a record over a body covers the code of the record. -/
theorem Links.covers {body : DecodedBody} {length : Nat} {lines : List Line}
    (lists : body.Lists length lines) (small : length ≤ 0xFFFFFFFF) {record : HandlerRecord}
    {handler : ExceptionHandler} (links : record.Links body handler) :
    record.Covers body handler := by
  have flags := flags_of_kind links.kind
  have code (number : UInt8) : record.code = number ↔ handler.kind.flags = number.toNat := by
    rw [flags, UInt8.toNat_inj]
  have filtered := links.filter
  refine ⟨ofNat?_of_kind links.kind, lists.encloses small links.guarded,
    lists.encloses small links.handler, ?_, ?_, ?_⟩
  · intro label is
    cases kind : handler.kind with
    | filter =>
      rw [kind] at filtered
      obtain ⟨found, boundary, same⟩ := exists_of_bind_eq_ok filtered
      rw [← Except.ok.inj same] at is
      cases is
      rw [lists.boundary_eq boundary, lists.before_eq_countBefore]
    | _ =>
      rw [kind] at filtered
      rw [← Except.ok.inj filtered] at is
      cases is
  · rw [code]
    cases kind : handler.kind with
    | filter =>
      rw [kind] at filtered
      obtain ⟨found, boundary, same⟩ := exists_of_bind_eq_ok filtered
      rw [← Except.ok.inj same]
      simp [HandlerKind.flags]
    | _ =>
      rw [kind] at filtered
      rw [← Except.ok.inj filtered]
      simp [HandlerKind.flags]
  · rw [code, links.caught]
    cases handler.kind <;> simp [HandlerKind.flags]

end HandlerRecord

/-- The handlers of a decoded body, linked or not, stand for their records one by one, and each
covers exactly the instructions that its record names. -/
theorem Decoder.fixHandlers_covers {decoder : Decoder} {reader after : Reader} {length : UInt32}
    {session last : Session} {body fixed : DecodedBody}
    (ends : (decoder.decode reader length.toNat).run.run session = (.ok (body, after), last))
    (links : fixed = body ∨ body.fixBranches = .ok fixed) {resolver : Resolver}
    {records : List HandlerRecord} {handlers : List ExceptionHandler} {start final : Session}
    (found : (fixed.fixHandlers resolver records).run.run start = (.ok handlers, final)) :
    List.Forall₂ (HandlerRecord.Covers fixed) records handlers := by
  obtain ⟨lines, decodes⟩ := decoder.decodes_of_decode ends
  have lists : fixed.Lists length.toNat lines := by
    rcases links with rfl | links
    · exact decodes.lists
    · exact decodes.lists_fixBranches links
  have small : length.toNat ≤ 0xFFFFFFFF := Nat.le_of_lt_succ length.toNat_lt
  have reached := (fixed.fixHandlers_reaches resolver records start).ends
  rw [found] at reached
  exact reached.2.imp fun record handler => HandlerRecord.Links.covers lists small

namespace SkippedStart

def idle : VirtualOpcode := ⟨7, .inlineNone, .special .noEffect, ⟨0⟩⟩

def nothing : VirtualOpcode := ⟨8, .inlineNone, .cil .nop, ⟨0⟩⟩

def leaves : VirtualOpcode := ⟨9, .inlineBrTarget, .cil .leave, ⟨0⟩⟩

def decoder : Decoder where
  catalog := { opcodes := [idle, nothing, leaves] }
  resolver := { stream := { base := .memory [] } }
  token := ⟨0x06000001⟩

def session : Session := { host := { name := "Sample" } }

/-- One without effect, a branch to the end, and two more, the last without effect. -/
def code : Bytes := [7, 0, 9, 0, 8, 0, 0, 0, 8, 0, 7, 0]

/-- The guarded range starts at the first opcode, its handler ends with the code. -/
def records : List HandlerRecord :=
  [⟨1, 0, ⟨0, 8⟩, ⟨8, 4⟩, 2⟩, ⟨2, 0, ⟨2, 6⟩, ⟨10, 2⟩, 0⟩]

def handlers : List ExceptionHandler :=
  [{ kind := .filter, guarded := ⟨0, 1⟩, handler := ⟨1, 2⟩, filter := some 0 },
    { kind := .final, guarded := ⟨0, 1⟩, handler := ⟨2, 2⟩ }]

/-- Decodes, links and finds the handlers. -/
def outcome : ResolveM (DecodedBody × List ExceptionHandler) := do
  let (body, _) ← decoder.decode (.ofBytes code {}) (12 : UInt32).toNat
  let fixed ← Resolver.lift body.fixBranches
  return (fixed, ← fixed.fixHandlers decoder.resolver records)

/-- The boundaries of two handlers on opcodes without effect and at the end of the code. -/
theorem fixHandlers_covers_skipped : ∃ fixed last,
    outcome.run.run session = (.ok (fixed, handlers), last) ∧
      List.Forall₂ (HandlerRecord.Covers fixed) records handlers := by
  have ends : (outcome.run.run session).1.toOption.map Prod.snd = some handlers := by
    decide +kernel
  generalize run : outcome.run.run session = result at ends ⊢
  obtain ⟨e | ⟨fixed, found⟩, last⟩ := result
  · cases ends
  · cases ends
    obtain ⟨⟨body, after⟩, between, decoded, run⟩ := exists_of_run_bind_eq_ok run
    obtain ⟨linked, middle, links, run⟩ := exists_of_run_bind_eq_ok run
    obtain ⟨covered, final, finds, run⟩ := exists_of_run_bind_eq_ok run
    have fixes : body.fixBranches = .ok linked := by
      cases fixed : body.fixBranches with
      | error e =>
        rw [fixed] at links
        cases links
      | ok other =>
        rw [fixed] at links
        cases links
        rfl
    cases run
    exact ⟨_, _, rfl, Decoder.fixHandlers_covers decoded (.inr fixes) finds⟩

end SkippedStart

end CilRecovery
