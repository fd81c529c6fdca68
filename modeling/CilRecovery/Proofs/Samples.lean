import Mathlib.Algebra.BigOperators.Ring.List
import Mathlib.Algebra.Ring.Nat
import CilRecovery.Permutation.Inference
import CilRecovery.Proofs.Arrangements
import CilRecovery.Proofs.Permutation

/-!
Permutations from samples: a permutation is found just where it is the only one of its width that
gives every sample its value.
-/
namespace CilRecovery

namespace Permutation

/-! ### Encodings -/

/-- Bytes count by their places, the lowest first. -/
theorem sum_places (bytes : Bytes) :
    ((List.range bytes.length).map fun place => (bytes.getD place 0).toNat <<< (8 * place)).sum =
      bytes.toNat := by
  induction bytes with
  | nil => rfl
  | cons b rest ih =>
    have shifted : ∀ place : Nat, (rest.getD place 0).toNat <<< (8 * (place + 1)) =
        256 * ((rest.getD place 0).toNat <<< (8 * place)) := by
      intro place
      rw [Nat.mul_succ, Nat.shiftLeft_add, Nat.shiftLeft_eq _ 8, Nat.mul_comm]
    rw [List.length_cons, List.range_succ_eq_map, List.map_cons, List.sum_cons, List.map_map,
      Bytes.toNat, ← ih, ← List.sum_map_mul_left, ← funext shifted]
    rfl

theorem decodeWith_map (order : List Nat) (byte : Nat → UInt8) :
    decodeWith order (order.map byte) =
      (order.map fun place => (byte place).toNat <<< (8 * place)).sum := by
  induction order with
  | nil => rfl
  | cons place rest ih => rw [List.map_cons, decodeWith, ih, List.map_cons, List.sum_cons]

/-- Bytes in the stream are those of a number, scrambled. -/
theorem exists_scramble (permutation : Permutation) {stream : Bytes}
    (length : stream.length = permutation.width) :
    ∃ bytes : Bytes, bytes.length = permutation.width ∧ permutation.scramble bytes = stream := by
  let byte (place : Nat) : UInt8 := stream.getD (permutation.order.idxOf place) 0
  refine ⟨(List.range permutation.width).map byte, by simp, ?_⟩
  have distinct : permutation.order.Nodup := permutation.isPerm.nodup_iff.mpr List.nodup_range
  apply List.ext_getElem (by rw [length_scramble, length])
  intro index left right
  have inside : index < permutation.order.length := by
    rwa [length_scramble] at left
  have below : permutation.order[index] < permutation.width :=
    permutation.mem_order.mp (List.getElem_mem inside)
  have back : permutation.order.idxOf permutation.order[index] = index :=
    distinct.idxOf_getElem index inside
  simp [scramble, byte, below, back, right]

/-- The order of a permutation reads streams as the permutation does. -/
theorem decodeWith_order (permutation : Permutation) (small : permutation.width ≤ 8)
    {stream : Bytes} (length : stream.length = permutation.width) :
    decodeWith permutation.order stream = permutation.decode stream := by
  obtain ⟨bytes, count, rfl⟩ := permutation.exists_scramble length
  calc decodeWith permutation.order (permutation.scramble bytes)
      = (permutation.order.map fun place => (bytes.getD place 0).toNat <<< (8 * place)).sum :=
        decodeWith_map ..
    _ = ((List.range bytes.length).map fun place =>
          (bytes.getD place 0).toNat <<< (8 * place)).sum := by
        rw [count]
        exact (permutation.isPerm.map _).sum_nat
    _ = bytes.toNat := sum_places bytes
    _ = permutation.decode (permutation.scramble bytes) := by
        rw [decode, unscramble_scramble permutation count, toNat_padded bytes (by omega)]

/-! ### Samples -/

/-- A permutation that gives every sample its value. -/
def Fits (samples : List Sample) (permutation : Permutation) : Prop :=
  ∀ sample ∈ samples, permutation.decode sample.stream = sample.value

/-- Samples of a width that only one permutation fits. -/
structure Determined (width : Nat) (samples : List Sample) (permutation : Permutation) : Prop where
  known : width ∈ widths
  streams : ∀ sample ∈ samples, sample.stream.length = width
  width_eq : permutation.width = width
  fits : Fits samples permutation
  unique : ∀ other : Permutation, other.width = width → Fits samples other → other = permutation

/-- The orders that give every sample its value. -/
def candidates (width : Nat) (samples : List Sample) : List (List Nat) :=
  (arrangements (List.range width)).filter fun order =>
    samples.all fun sample => decodeWith order sample.stream == sample.value

variable {width : Nat} {samples : List Sample}

theorem nodup_candidates (width : Nat) (samples : List Sample) : (candidates width samples).Nodup :=
  (nodup_arrangements List.nodup_range).filter _

theorem le_of_mem_widths (known : width ∈ widths) : width ≤ 8 := by
  revert width
  decide

theorem mem_candidates (known : width ∈ widths)
    (streams : ∀ sample ∈ samples, sample.stream.length = width) {order : List Nat} :
    order ∈ candidates width samples ↔
      ∃ permutation : Permutation, permutation.order = order ∧ permutation.width = width ∧
        Fits samples permutation := by
  have reads : ∀ permutation : Permutation, permutation.width = width →
      ((∀ sample ∈ samples, decodeWith permutation.order sample.stream = sample.value) ↔
        Fits samples permutation) := by
    intro permutation same
    refine forall₂_congr fun sample member => ?_
    rw [permutation.decodeWith_order (same ▸ le_of_mem_widths known) (same ▸ streams sample member)]
  simp only [candidates, List.mem_filter, mem_arrangements List.nodup_range, List.all_eq_true,
    beq_iff_eq]
  constructor
  · rintro ⟨perm, values⟩
    have length : order.length = width := by simpa using perm.length_eq
    have valid : order.Perm (List.range order.length) := length ▸ perm
    exact ⟨⟨order, valid⟩, rfl, length, (reads ⟨order, valid⟩ length).mp values⟩
  · rintro ⟨permutation, rfl, same, fits⟩
    exact ⟨same ▸ permutation.isPerm, (reads permutation same).mpr fits⟩

/-- A permutation is determined just where it is the only candidate. -/
theorem determined_iff (known : width ∈ widths)
    (streams : ∀ sample ∈ samples, sample.stream.length = width) {permutation : Permutation} :
    Determined width samples permutation ↔ candidates width samples = [permutation.order] := by
  have fitting (order : List Nat) := @mem_candidates width samples known streams order
  constructor
  · intro determined
    have sole : (candidates width samples).Perm [permutation.order] := by
      refine (List.perm_ext_iff_of_nodup (nodup_candidates ..) (List.nodup_singleton _)).mpr ?_
      intro order
      rw [fitting, List.mem_singleton]
      constructor
      · rintro ⟨other, rfl, same, fits⟩
        rw [determined.unique other same fits]
      · rintro rfl
        exact ⟨permutation, rfl, determined.width_eq, determined.fits⟩
    exact List.perm_singleton.mp sole
  · intro sole
    have member : permutation.order ∈ candidates width samples := by simp [sole]
    obtain ⟨found, same, width_eq, fits⟩ := (fitting _).mp member
    obtain rfl := eq_of_order same
    refine ⟨known, streams, width_eq, fits, fun other sameWidth otherFits => eq_of_order ?_⟩
    have also : other.order ∈ candidates width samples :=
      (fitting _).mpr ⟨other, rfl, sameWidth, otherFits⟩
    simpa [sole] using also

theorem not_determined (known : width ∈ widths)
    (streams : ∀ sample ∈ samples, sample.stream.length = width)
    (notOne : ∀ order, candidates width samples ≠ [order]) (permutation : Permutation) :
    ¬ Determined width samples permutation :=
  fun determined => notOne _ ((determined_iff known streams).mp determined)

/-- What a search finds, and what it fails with where there is nothing to find. -/
inductive Searched (width : Nat) (samples : List Sample) : Except Error Permutation → Prop
  | found {permutation : Permutation} (determined : Determined width samples permutation) :
      Searched width samples (.ok permutation)
  | failed {reason : String} (undecided : ∀ permutation, ¬ Determined width samples permutation) :
      Searched width samples (.error (.bootstrap reason))

/-- Samples of one known width are searched for a candidate alone. -/
theorem searched_candidates (known : width ∈ widths)
    (streams : ∀ sample ∈ samples, sample.stream.length = width) :
    Searched width samples (ofSamples width samples) := by
  have even : (samples.any fun sample => sample.stream.length != width) = false := by
    simpa using streams
  rw [ofSamples, if_neg (not_not.mpr known), even]
  match listed : candidates width samples with
  | [] =>
    have none := not_determined known streams (by simp [listed])
    rw [candidates] at listed
    simpa [listed] using .failed none
  | [order] =>
    have member : order ∈ candidates width samples := by simp [listed]
    obtain ⟨permutation, rfl, same, -⟩ := (mem_candidates known streams).mp member
    have accepted : ofOrder permutation.order = .ok permutation :=
      ofOrder_eq_ok_iff.mpr ⟨rfl, same ▸ known⟩
    have sole := (determined_iff known streams).mpr listed
    rw [candidates] at listed
    simpa [listed, accepted] using .found sole
  | first :: second :: rest =>
    have several := not_determined known streams (by simp [listed])
    rw [candidates] at listed
    simpa [listed] using .failed several

theorem searched_ofSamples (width : Nat) (samples : List Sample) :
    Searched width samples (ofSamples width samples) := by
  by_cases known : width ∈ widths
  · by_cases streams : ∀ sample ∈ samples, sample.stream.length = width
    · exact searched_candidates known streams
    · have uneven : (samples.any fun sample => sample.stream.length != width) = true := by
        simpa using streams
      rw [ofSamples, if_neg (not_not.mpr known), if_pos uneven]
      exact .failed fun _ determined => streams determined.streams
  · rw [ofSamples, if_pos known]
    exact .failed fun _ determined => known determined.known

/-- A permutation is found just where the samples determine it, and else there is an error. -/
theorem ofSamples_exact (width : Nat) (samples : List Sample) :
    (∀ permutation, ofSamples width samples = .ok permutation ↔
      Determined width samples permutation) ∧
    ((¬ ∃ permutation, Determined width samples permutation) ↔
      ∃ reason, ofSamples width samples = .error (.bootstrap reason)) := by
  have searched := searched_ofSamples width samples
  generalize ofSamples width samples = result at searched
  cases searched with
  | @found permutation determined =>
    refine ⟨fun other => ⟨?_, fun also => ?_⟩,
      fun none => absurd ⟨permutation, determined⟩ none, nofun⟩
    · rintro ⟨⟩
      exact determined
    · rw [determined.unique other also.width_eq also.fits]
  | failed undecided =>
    refine ⟨fun other => ⟨nofun, fun also => absurd also (undecided other)⟩, fun _ => ⟨_, rfl⟩, ?_⟩
    rintro - ⟨permutation, determined⟩
    exact undecided permutation determined

namespace FourBytes

theorem isPerm_sampled : [3, 1, 0, 2].Perm (List.range 4) := by decide

def permutation : Permutation := ⟨[3, 1, 0, 2], isPerm_sampled⟩

/-- Different bytes, which show where each of them goes. -/
def distinct : Sample := ⟨[0x12, 0x34, 0x56, 0x78], 0x12783456⟩

/-- Equal bytes, which leave open which of them goes where. -/
def equal : Sample := ⟨[0xAA, 0xAA, 0xAA, 0xAA], 0xAAAAAAAA⟩

theorem determined : Determined 4 [distinct] permutation where
  known := by decide
  streams := List.forall_mem_singleton.mpr rfl
  width_eq := rfl
  fits := List.forall_mem_singleton.mpr (by decide)
  unique other width_eq fits := by
    have member : other.order ∈ (List.range 4).permutations' :=
      List.mem_permutations'.mpr (width_eq ▸ other.isPerm)
    have length : distinct.stream.length = other.width := by
      rw [width_eq]
      rfl
    have value : decodeWith other.order distinct.stream = distinct.value := by
      rw [other.decodeWith_order (by omega) length]
      exact fits distinct (List.mem_singleton_self _)
    have only : ∀ order ∈ (List.range 4).permutations',
        decodeWith order distinct.stream = distinct.value → order = permutation.order := by
      decide +kernel
    exact eq_of_order (only other.order member value)

theorem ofSamples_distinct :
    ofSamples 4 [distinct] = .ok permutation ∧
      ∃ reason, ofSamples 4 [equal] = .error (.bootstrap reason) := by
  refine ⟨((ofSamples_exact 4 _).1 permutation).mpr determined, (ofSamples_exact 4 _).2.mp ?_⟩
  rintro ⟨found, determined⟩
  have one : permutation = found :=
    determined.unique permutation rfl (List.forall_mem_singleton.mpr (by decide))
  have other : identity 4 = found :=
    determined.unique (identity 4) rfl (List.forall_mem_singleton.mpr (by decide))
  exact absurd (one.trans other.symm) (by decide)

end FourBytes

end Permutation

end CilRecovery
