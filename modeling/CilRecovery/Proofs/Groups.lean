import Mathlib.Data.Nat.Digits.Lemmas
import CilRecovery.Proofs.Extent
import CilRecovery.Proofs.Writing

/-!
Lengths in groups of seven bits. Reading comes to the number that the groups make up, as far as it
fits 32 bits: of a fifth group only the four lowest bits count.
-/
namespace CilRecovery

namespace Bytes

/-- Groups of seven bits: all bytes but the last carry the high bit. -/
inductive IsGroups : Bytes → Prop where
  | last {byte : UInt8} (low : byte.toNat < 128) : IsGroups [byte]
  | more {byte : UInt8} {rest : Bytes} (high : 128 ≤ byte.toNat) (groups : IsGroups rest) :
    IsGroups (byte :: rest)

/-- The number that groups of seven bits make up, the lowest first, however large it is. -/
def groupsValue (bytes : Bytes) : Nat := Nat.ofDigits 128 (bytes.map fun byte => byte.toNat % 128)

theorem groupsValue_cons (byte : UInt8) (rest : Bytes) :
    groupsValue (byte :: rest) = byte.toNat % 128 + 128 * groupsValue rest :=
  Nat.ofDigits_cons ..

theorem groupsValue_append (front back : Bytes) :
    groupsValue (front ++ back) = groupsValue front + 128 ^ front.length * groupsValue back := by
  rw [groupsValue, List.map_append, Nat.ofDigits_append, List.length_map, groupsValue, groupsValue]

theorem groupsValue_lt (bytes : Bytes) : bytes.groupsValue < 128 ^ bytes.length := by
  rw [groupsValue, ← List.length_map (fun byte : UInt8 => byte.toNat % 128)]
  refine Nat.ofDigits_lt_base_pow_length (by decide) fun digit member => ?_
  obtain ⟨byte, _, rfl⟩ := List.mem_map.mp member
  exact Nat.mod_lt _ (by decide)

theorem isGroups_ofGroups (n : Nat) : (ofGroups n).IsGroups := by
  induction n using Nat.strongRecOn with
  | ind n ih =>
    rw [ofGroups]
    split
    · rename_i small
      exact .last (by rwa [Text.Utf8.toNat_ofNat (by omega)])
    · refine .more ?_ (ih (n / 128) (by omega))
      rw [Text.Utf8.toNat_ofNat (by omega)]
      exact Nat.le_add_left _ _

/-- The groups that are written for a number make it up. -/
theorem groupsValue_ofGroups (n : Nat) : (ofGroups n).groupsValue = n := by
  induction n using Nat.strongRecOn with
  | ind n ih =>
    rw [ofGroups]
    split
    · rw [groupsValue_cons, Text.Utf8.toNat_ofNat (by omega)]
      change n % 128 + 128 * 0 = n
      omega
    · rw [groupsValue_cons, Text.Utf8.toNat_ofNat (by omega), ih (n / 128) (by omega)]
      omega

theorem length_ofGroups_le {count n : Nat} (fits : n < 128 ^ (count + 1)) :
    (ofGroups n).length ≤ count + 1 := by
  induction count generalizing n with
  | zero =>
    rw [ofGroups, if_pos (by simpa using fits)]
    exact Nat.le_refl 1
  | succ count ih =>
    rw [ofGroups]
    split
    · exact Nat.le_add_left 1 _
    · have rest : n / 128 < 128 ^ (count + 1) := by
        rw [Nat.pow_succ] at fits
        exact Nat.div_lt_of_lt_mul (by rwa [Nat.mul_comm])
      exact Nat.succ_le_succ (ih rest)

namespace IsGroups

variable {bytes bytes' text : Bytes}

theorem exists_low (groups : bytes.IsGroups) : ∃ byte ∈ bytes, byte.toNat < 128 := by
  induction groups with
  | last low => exact ⟨_, List.mem_singleton_self _, low⟩
  | more high groups ih =>
    obtain ⟨byte, member, low⟩ := ih
    exact ⟨byte, List.mem_cons_of_mem _ member, low⟩

/-- At each place of a text begin the groups of at most one number. -/
theorem unique (groups : bytes.IsGroups) (groups' : bytes'.IsGroups) (starts : bytes <+: text)
    (starts' : bytes' <+: text) : bytes = bytes' := by
  induction groups generalizing bytes' text with
  | last low =>
    obtain ⟨behind, rfl⟩ := starts
    cases groups' with
    | last low' => rw [(List.cons_prefix_cons.mp starts').1]
    | more high' rest' =>
      rw [(List.cons_prefix_cons.mp starts').1] at high'
      exact absurd low (Nat.not_lt.mpr high')
  | more high rest ih =>
    obtain ⟨behind, rfl⟩ := starts
    cases groups' with
    | last low' =>
      rw [(List.cons_prefix_cons.mp starts').1] at low'
      exact absurd low' (Nat.not_lt.mpr high)
    | more high' rest' =>
      obtain ⟨rfl, further⟩ := List.cons_prefix_cons.mp starts'
      rw [ih rest' (List.prefix_append _ _) further]

/-- Groups that are next in a text hold a byte without the high bit among as many bytes of it. -/
theorem exists_low_slice {position count : Nat} (groups : bytes.IsGroups)
    (starts : bytes <+: text.drop position) (short : bytes.length ≤ count) :
    ∃ byte ∈ text.slice position count, byte.toNat < 128 := by
  obtain ⟨byte, member, low⟩ := groups.exists_low
  have inside : bytes.take count <+: text.slice position count := starts.take count
  rw [List.take_of_length_le short] at inside
  exact ⟨byte, inside.subset member, low⟩

theorem low_of_append {front : Bytes} {last : UInt8} (groups : (front ++ [last]).IsGroups) :
    last.toNat < 128 := by
  induction front with
  | nil =>
    cases groups with
    | last low => exact low
    | more high groups => cases groups
  | cons byte rest ih =>
    generalize whole : byte :: rest ++ [last] = bytes at groups
    cases groups with
    | last low => simp at whole
    | more high groups =>
      rw [List.cons_append] at whole
      rw [← (List.cons.inj whole).2] at groups
      exact ih groups

/-- Of at most five groups only a fifth can make the number too large for 32 bits. -/
theorem groupsValue_lt_iff (groups : bytes.IsGroups) (short : bytes.length ≤ 5) :
    bytes.groupsValue < 0x100000000 ↔ ∀ fifth, bytes[4]? = some fifth → fifth.toNat < 16 := by
  rcases Nat.lt_or_ge 4 bytes.length with five | four
  · obtain ⟨front, fifth, rfl⟩ : ∃ front fifth, bytes = front ++ [fifth] :=
      (List.eq_nil_or_concat' bytes).resolve_left fun nil => by simp [nil] at five
    have length : front.length = 4 := by
      rw [List.length_append, List.length_singleton] at short five
      omega
    have low := groups.low_of_append
    have front_lt := groupsValue_lt front
    have value : groupsValue (front ++ [fifth]) = groupsValue front + 128 ^ 4 * fifth.toNat := by
      rw [groupsValue_append, length, groupsValue_cons, Nat.mod_eq_of_lt low]
      rfl
    have at_ : (front ++ [fifth])[4]? = some fifth := by
      rw [← length, List.getElem?_concat_length]
    rw [length] at front_lt
    rw [value, at_]
    constructor
    · rintro fits _ ⟨⟩
      omega
    · intro small
      have small := small fifth rfl
      omega
  · have fits : bytes.groupsValue < 128 ^ 4 :=
      Nat.lt_of_lt_of_le (groupsValue_lt bytes) (Nat.pow_le_pow_right (by decide) four)
    rw [List.getElem?_eq_none four]
    exact ⟨fun _ _ nothing => (by cases nothing), fun _ => Nat.lt_trans fits (by decide)⟩

end IsGroups

end Bytes

namespace Reader

variable {reader : Reader} {text : Bytes}

/-- One byte of the text is read, if there is one left. -/
theorem u8_sees (seen : reader.Sees text) :
    Reaches u8 reader
      (fun byte after => (∃ rest, text.drop reader.position = byte :: rest) ∧ after.Sees text ∧
        after.position = reader.position + 1)
      (fun e _ => text.drop reader.position = [] ∧ e.isUnread = true) := by
  have spans := (Spans.bytes 1).reaches reader
  have reached := (bytes_sees seen 1).ends
  have passed := spans.ends
  refine .bind ⟨?_⟩
  generalize (bytes 1).run.run reader = outcome at reached passed
  obtain ⟨result, after⟩ := outcome
  cases result with
  | error e =>
    refine ⟨?_, passed.1⟩
    rw [Bytes.slice, List.length_take] at reached
    exact List.eq_nil_of_length_eq_zero (by omega)
  | ok value =>
    obtain ⟨is, whole, sees⟩ := reached
    refine .pure ⟨?_, sees, passed.1.position⟩
    rw [Bytes.slice] at is
    cases next : text.drop reader.position with
    | nil =>
      rw [next] at is
      subst is
      cases whole
    | cons byte rest =>
      rw [next] at is
      subst is
      exact ⟨rest, rfl⟩

/-- How reading at most so many groups ends: behind groups that are next in the text, with the
number that they make up on top of what was read before; or in an error, if the bytes that might be
groups all carry the high bit. -/
theorem groups_sees (left shift sofar : Nat) (seen : reader.Sees text) :
    Reaches (groups left shift sofar) reader
      (fun value after => ∃ bytes : Bytes, bytes <+: text.drop reader.position ∧ bytes.IsGroups ∧
        bytes.length ≤ left ∧ after.position = reader.position + bytes.length ∧
        value = (sofar + bytes.groupsValue <<< shift) % 0x100000000)
      (fun e _ => (∀ byte ∈ text.slice reader.position left, 128 ≤ byte.toNat) ∧
        if (text.slice reader.position left).length = left then
          e = .malformed "7-bit encoded integer exceeds five bytes"
        else e.isUnread = true) := by
  induction left generalizing reader shift sofar with
  | zero => exact .throw ⟨by simp [Bytes.slice], by simp [Bytes.slice]⟩
  | succ left ih =>
    refine .bind <| (u8_sees seen).mono ?_ ?_
    · rintro byte between ⟨⟨rest, next⟩, sees, position⟩
      dsimp only
      split
      · rename_i low
        refine .pure ⟨[byte], ?_, .last low, Nat.le_add_left _ _, position, ?_⟩
        · rw [next]
          exact List.prefix_append [byte] rest
        · rw [Bytes.groupsValue_cons]
          rfl
      · rename_i high
        have behind : text.drop between.position = rest := by
          rw [position, ← List.drop_drop, next, List.drop_succ_cons, List.drop_zero]
        have slice : text.slice reader.position (left + 1) =
            byte :: text.slice between.position left := by
          rw [Bytes.slice, Bytes.slice, next, behind, List.take_succ_cons]
        refine (ih (shift + 7) _ sees).mono ?_ ?_
        · rintro value after ⟨bytes, starts, groups, short, reached, is⟩
          refine ⟨byte :: bytes, ?_, .more (Nat.not_lt.mp high) groups, Nat.succ_le_succ short, ?_, ?_⟩
          · rw [next, List.cons_prefix_cons]
            exact ⟨rfl, behind ▸ starts⟩
          · rw [reached, position, List.length_cons]
            omega
          · have joined : sofar + (byte.toNat % 128) <<< shift + bytes.groupsValue <<< (shift + 7) =
                sofar + (byte.toNat % 128 + 128 * bytes.groupsValue) <<< shift := by
              simp only [Nat.shiftLeft_eq, Nat.pow_add]
              ring
            rw [is, joined, Bytes.groupsValue_cons]
        · rintro e after ⟨all, how⟩
          rw [slice]
          refine ⟨List.forall_mem_cons.mpr ⟨Nat.not_lt.mp high, all⟩, ?_⟩
          simpa using how
    · rintro e after ⟨nothing, unread⟩
      rw [Bytes.slice, nothing]
      exact ⟨by simp, by simpa using unread⟩

theorem sevenBit_sees (seen : reader.Sees text) :
    Reaches sevenBit reader
      (fun value after => ∃ bytes : Bytes, bytes <+: text.drop reader.position ∧ bytes.IsGroups ∧
        bytes.length ≤ 5 ∧ after.position = reader.position + bytes.length ∧
        value = bytes.groupsValue % 0x100000000)
      (fun e _ => (∀ byte ∈ text.slice reader.position 5, 128 ≤ byte.toNat) ∧
        if (text.slice reader.position 5).length = 5 then
          e = .malformed "7-bit encoded integer exceeds five bytes"
        else e.isUnread = true) := by
  refine (groups_sees 5 0 0 seen).mono ?_ fun _ _ => id
  rintro value after ⟨bytes, starts, groups, short, position, is⟩
  rw [Nat.shiftLeft_zero, Nat.zero_add] at is
  exact ⟨bytes, starts, groups, short, position, is⟩

/-- Reading a length comes to the groups that are next in the text, and to their number as far as it
fits 32 bits; it fails exactly if the next five bytes, or all that are left, carry the high bit. -/
theorem sevenBit_groups (seen : reader.Sees text) :
    (∀ value after, sevenBit.run.run reader = (.ok value, after) →
      ∃ bytes : Bytes, bytes <+: text.drop reader.position ∧ bytes.IsGroups ∧ bytes.length ≤ 5 ∧
        after.position = reader.position + bytes.length ∧
        value = bytes.groupsValue % 0x100000000 ∧
        (value = bytes.groupsValue ↔ ∀ fifth, bytes[4]? = some fifth → fifth.toNat < 16)) ∧
    (∀ bytes : Bytes, bytes <+: text.drop reader.position → bytes.IsGroups → bytes.length ≤ 5 →
      ∃ after, sevenBit.run.run reader = (.ok (bytes.groupsValue % 0x100000000), after) ∧
        after.position = reader.position + bytes.length) ∧
    (∀ value : UInt32, Bytes.ofGroups value.toNat <+: text.drop reader.position →
      ∃ after, sevenBit.run.run reader = (.ok value.toNat, after) ∧
        after.position = reader.position + (Bytes.ofGroups value.toNat).length) ∧
    (∀ e after, sevenBit.run.run reader = (.error e, after) →
      if (text.slice reader.position 5).length = 5 then
        e = .malformed "7-bit encoded integer exceeds five bytes"
      else e.isUnread = true) ∧
    ((∃ e after, sevenBit.run.run reader = (.error e, after)) ↔
      ∀ byte ∈ text.slice reader.position 5, 128 ≤ byte.toNat) := by
  have reached := (sevenBit_sees seen).ends
  cases ends : sevenBit.run.run reader with
  | mk result after =>
    rw [ends] at reached
    cases result with
    | ok value =>
      obtain ⟨bytes, starts, groups, short, position, is⟩ := reached
      obtain ⟨byte, inside, low⟩ := groups.exists_low_slice starts short
      have reads (bytes' : Bytes) (starts' : bytes' <+: text.drop reader.position)
          (groups' : bytes'.IsGroups) :
          ∃ last, (Except.ok (ε := Error) value, after) =
              (.ok (bytes'.groupsValue % 0x100000000), last) ∧
            last.position = reader.position + bytes'.length := by
        cases groups.unique groups' starts starts'
        exact ⟨after, by rw [is], position⟩
      refine ⟨?_, fun bytes' starts' groups' _ => reads bytes' starts' groups', ?_, ?_, ?_⟩
      · rintro _ _ ⟨⟩
        refine ⟨bytes, starts, groups, short, position, is, ?_⟩
        rw [is, ← groups.groupsValue_lt_iff short]
        exact ⟨fun same => same ▸ Nat.mod_lt _ (by decide), Nat.mod_eq_of_lt⟩
      · intro number starts'
        have read := reads _ starts' (Bytes.isGroups_ofGroups _)
        rwa [Bytes.groupsValue_ofGroups, Nat.mod_eq_of_lt number.toNat_lt] at read
      · rintro _ _ ⟨⟩
      · refine ⟨?_, fun all => absurd low (Nat.not_lt.mpr (all byte inside))⟩
        rintro ⟨_, _, ⟨⟩⟩
    | error e =>
      obtain ⟨all, how⟩ := reached
      have fails (bytes : Bytes) (starts : bytes <+: text.drop reader.position)
          (groups : bytes.IsGroups) (short : bytes.length ≤ 5) : False := by
        obtain ⟨byte, inside, low⟩ := groups.exists_low_slice starts short
        exact Nat.not_lt.mpr (all byte inside) low
      refine ⟨?_, fun bytes starts groups short => (fails bytes starts groups short).elim, ?_, ?_, ?_⟩
      · rintro _ _ ⟨⟩
      · intro number starts
        have small : number.toNat < 128 ^ (4 + 1) := Nat.lt_trans number.toNat_lt (by decide)
        exact (fails _ starts (Bytes.isGroups_ofGroups _) (Bytes.length_ofGroups_le small)).elim
      · rintro _ _ ⟨⟩
        exact how
      · exact ⟨fun _ => all, fun _ => ⟨e, after, rfl⟩⟩

end Reader

namespace FifthGroup

/-- Five groups that make up the largest number of 32 bits, and one more byte. -/
def largest : Bytes := [0xFF, 0xFF, 0xFF, 0xFF, 0x0F, 0x41]

theorem sevenBit_groups_largest :
    ∃ after, Reader.sevenBit.run.run (.ofBytes largest {}) = (.ok 0xFFFFFFFF, after) ∧
      after.position = 5 := by
  have written : Bytes.ofGroups (0xFFFFFFFF : UInt32).toNat = [0xFF, 0xFF, 0xFF, 0xFF, 0x0F] := by
    decide +kernel
  have sees : (Reader.ofBytes largest {}).Sees largest := Reader.sees_of_shows ⟨_, rfl, rfl⟩
  obtain ⟨_, _, reads, _⟩ := Reader.sevenBit_groups sees
  obtain ⟨after, ends, position⟩ := reads 0xFFFFFFFF (by rw [written]; exact ⟨[0x41], rfl⟩)
  exact ⟨after, ends, by rw [position, written]; rfl⟩

/-- A fifth group of sixteen counts as nothing: a length of 2 ^ 32 is read as no length, and so a
text of that length as the empty one. -/
theorem sevenBit_wraps :
    Bytes.groupsValue [0x80, 0x80, 0x80, 0x80, 0x10] = 0x100000000 ∧
      Reader.result Reader.sevenBit (.ofBytes [0x80, 0x80, 0x80, 0x80, 0x10] {}) = .ok 0 ∧
      Reader.result Reader.string (.ofBytes [0x80, 0x80, 0x80, 0x80, 0x10] {}) = .ok "" := by
  decide +kernel

end FifthGroup

end CilRecovery
