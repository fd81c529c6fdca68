import Mathlib.Data.List.Basic
import CilRecovery.Permutation.Basic
import CilRecovery.Proofs.Bytes

/-!
Scrambled numbers: what a permutation writes, it reads back.
-/
namespace CilRecovery

namespace Permutation

theorem mem_order (permutation : Permutation) {place : Nat} :
    place ∈ permutation.order ↔ place < permutation.width := by
  rw [permutation.isPerm.mem_iff, List.mem_range, width]

theorem eq_of_order {first second : Permutation} (same : first.order = second.order) :
    first = second := by
  cases first
  cases second
  cases same
  rfl

/-- Just the orders of permutations with a known width are accepted. -/
theorem ofOrder_eq_ok_iff {order : List Nat} {permutation : Permutation} :
    ofOrder order = .ok permutation ↔ permutation.order = order ∧ permutation.width ∈ widths := by
  constructor
  · intro accepted
    unfold ofOrder at accepted
    split_ifs at accepted with known valid
    cases accepted
    exact ⟨rfl, known⟩
  · rintro ⟨rfl, known⟩
    rw [width] at known
    simp [ofOrder, known, permutation.isPerm]

@[simp]
theorem length_scramble (permutation : Permutation) (bytes : Bytes) :
    (permutation.scramble bytes).length = permutation.width := by
  simp [scramble, width]

@[simp]
theorem length_encode (permutation : Permutation) (n : Nat) :
    (permutation.encode n).length = permutation.width :=
  length_scramble ..

theorem unscramble_scramble (permutation : Permutation) {bytes : Bytes}
    (length : bytes.length = permutation.width) :
    permutation.unscramble (permutation.scramble bytes) =
      (List.range 8).map fun place => bytes.getD place 0 := by
  apply List.map_congr_left
  intro place _
  rw [List.take_of_length_le (by simp)]
  by_cases inside : place < permutation.width
  · have found : permutation.order.idxOf place < permutation.order.length :=
      List.idxOf_lt_length_iff.mpr (permutation.mem_order.mpr inside)
    have there : permutation.order[permutation.order.idxOf place] = place :=
      List.getElem_idxOf found
    simp [scramble, found, there]
  · have missing : permutation.order.idxOf place = permutation.order.length :=
      List.idxOf_eq_length fun member => inside (permutation.mem_order.mp member)
    have outside : bytes.length ≤ place := by omega
    simp [scramble, missing, outside]

theorem toNat_padded (bytes : Bytes) {count : Nat} (fits : bytes.length ≤ count) :
    Bytes.toNat ((List.range count).map fun place => bytes.getD place 0) = bytes.toNat := by
  induction count generalizing bytes with
  | zero =>
    have empty : bytes = [] := List.length_eq_zero_iff.mp (Nat.le_zero.mp fits)
    rw [empty]
    rfl
  | succ count ih =>
    rw [List.range_succ_eq_map, List.map_cons, List.map_map]
    cases bytes with
    | nil =>
      have tail := ih [] (Nat.zero_le _)
      exact congrArg (0 + 256 * ·) tail
    | cons b rest =>
      have tail := ih rest (by simpa using fits)
      exact congrArg (b.toNat + 256 * ·) tail

/-- A number that fits the width is read back as it was written. -/
theorem decode_encode (permutation : Permutation) {n : Nat} (small : permutation.width ≤ 8)
    (fits : n < 256 ^ permutation.width) : permutation.decode (permutation.encode n) = n := by
  have length : (Bytes.ofNat permutation.width n).length = permutation.width :=
    Bytes.length_ofNat ..
  rw [decode, encode, unscramble_scramble permutation length, toNat_padded _ (by omega),
    Bytes.toNat_ofNat, Nat.mod_eq_of_lt fits]

end Permutation

namespace Profile

@[simp]
theorem length_encode (profile : Profile) (width : Width) (n : Nat) :
    ((profile.get width).encode n).length = width.bytes := by
  rw [Permutation.length_encode, profile.width_get]

theorem decode_encode (profile : Profile) (width : Width) {n : Nat} (fits : n < 256 ^ width.bytes) :
    (profile.get width).decode ((profile.get width).encode n) = n := by
  apply Permutation.decode_encode
  · rw [profile.width_get]
    cases width <;> decide
  · rw [profile.width_get]
    exact fits

end Profile

end CilRecovery
