import Mathlib.Algebra.Order.BigOperators.Group.List
import Mathlib.Algebra.Order.Group.Nat
import CilRecovery.Proofs.Cursors
import CilRecovery.Proofs.Padding

/-!
How much of a block resource there is to read. Reading to the end gives as many bytes as the length
header announces, or all that the blocks hold if that is less: a header is accepted if full blocks
could hold what it announces, whether or not the blocks are full.
-/
namespace CilRecovery

namespace Stream

open Cipher (PublicKey CounterRule)

namespace Blocks

variable {key : PublicKey} {data : Bytes}

/-- All blocks of a resource decrypt. -/
def Decrypts (key : PublicKey) (data : Bytes) : Prop :=
  ∀ index < data.length / key.blockSize, (payload? key data index).isSome

instance (key : PublicKey) (data : Bytes) : Decidable (Decrypts key data) :=
  inferInstanceAs (Decidable (∀ index < _, _))

/-- How much the blocks of a resource hold if they are full. -/
def capacity (key : PublicKey) (data : Bytes) : Nat :=
  data.length / key.blockSize * (key.blockSize - 3)

theorem Decrypts.length_payloadsOf (decrypts : Decrypts key data) :
    (payloadsOf key data).length = data.length / key.blockSize := by
  have bound : (payloadsOf key data).length ≤ data.length / key.blockSize := length_payloadsOf_le
  rcases Nat.lt_or_eq_of_le bound with short | all
  · have stuck : payload? key data (0 + (payloadsOf key data).length) = none :=
      payload?_length_payloadsFrom short
    have found := decrypts _ short
    rw [Nat.zero_add] at stuck
    rw [stuck] at found
    cases found
  · exact all

theorem length_of_mem_payloadsOf {payload : Bytes} (member : payload ∈ payloadsOf key data) :
    payload.length ≤ key.blockSize - 3 := by
  obtain ⟨place, found⟩ := List.mem_iff_getElem?.mp member
  have decrypted := payload?_of_getElem? found
  rw [payload?] at decrypted
  cases result : key.decryptBlock (data.slice (place * key.blockSize) key.blockSize) with
  | error e =>
    rw [result] at decrypted
    cases decrypted
  | ok value =>
    rw [result] at decrypted
    cases decrypted
    have short := (PublicKey.decryptBlock_eq_ok_iff.mp result).length_le
    omega

/-- The blocks never hold more than full blocks would. -/
theorem length_wholeOf_le : (wholeOf key data).length ≤ capacity key data := by
  rw [wholeOf, List.length_flatten, capacity]
  calc ((payloadsOf key data).map List.length).sum
    _ ≤ (payloadsOf key data).length * (key.blockSize - 3) := by
      have bound := List.sum_le_card_nsmul ((payloadsOf key data).map List.length)
        (key.blockSize - 3) (by simpa using fun _ => length_of_mem_payloadsOf)
      simpa using bound
    _ ≤ data.length / key.blockSize * (key.blockSize - 3) :=
      Nat.mul_le_mul_right _ length_payloadsOf_le

/-- Full blocks that all decrypt hold all that there is room for. -/
theorem Decrypts.length_wholeOf (decrypts : Decrypts key data)
    (full : ∀ payload ∈ payloadsOf key data, payload.length = key.blockSize - 3) :
    (wholeOf key data).length = capacity key data := by
  have sum := List.sum_eq_card_nsmul ((payloadsOf key data).map List.length)
    (key.blockSize - 3) (by simpa using full)
  rw [wholeOf, List.length_flatten, capacity, ← decrypts.length_payloadsOf]
  simpa using sum

theorem length_plain (blocks : Blocks) :
    blocks.plain.length =
      min blocks.payloadLength ((wholeOf blocks.key blocks.data).length - headerSize) := by
  rw [plain, List.length_take, List.length_drop]

end Blocks

namespace Layered

theorem length_plain_le (stream : Layered) : stream.plain.length ≤ stream.length := by
  obtain ⟨base, maskKey⟩ := stream
  cases base with
  | memory data => exact Nat.le_refl _
  | blocks blocks =>
    rw [plain, length, Blocks.length_plain]
    exact Nat.min_le_left _ _

end Layered

namespace View

variable {origin : Layered} {view : View}

/-- Reading to the end gives the rest of the text. -/
theorem readAll_drop (same : origin.Same view.stream) :
    Reaches readAll view
      (fun bytes _ => bytes = (origin.text view.cursor.rule).drop view.cursor.position)
      (fun _ _ => origin.IsBroken) := by
  refine .get_bind <| (readUpTo_slice same _).mono ?_
    fun _ _ ⟨_, _, _, unreadable⟩ => unreadable.breaks.isBroken
  rintro bytes after ⟨_, _, rfl, _⟩
  have bound := origin.length_plain_le
  rw [Bytes.slice, same.length]
  apply List.take_of_length_le
  rw [List.length_drop, Layered.text, Cipher.length_plaintext]
  omega

end View

/-- A fresh view of an opened resource all of whose blocks decrypt is read to the end without a
fault, under a mask or none. It gives as many bytes as the length header announces exactly if the
blocks hold them behind the header; of the header itself it is only known that full blocks could
hold what it announces. -/
theorem Blocks.readAll_announced {key : PublicKey} {data : Bytes} {blocks : Blocks}
    (opened : ofResource key data = .ok blocks) (decrypts : Decrypts key data)
    (maskKey : Option UInt32) (rule : CounterRule) :
    (∃ after, View.readAll.run.run
        { stream := { base := .blocks blocks, maskKey }, cursor := { rule } } =
      (.ok (Cipher.plaintext maskKey rule (plainOf key data)), after)) ∧
    (plainOf key data).length =
      min blocks.payloadLength ((wholeOf key data).length - headerSize) ∧
    ((plainOf key data).length = blocks.payloadLength ↔
      blocks.payloadLength + headerSize ≤ (wholeOf key data).length) ∧
    headerSize ≤ (wholeOf key data).length ∧
    (wholeOf key data).length ≤ capacity key data ∧
    blocks.payloadLength + headerSize ≤ capacity key data ∧
    ((∀ payload ∈ payloadsOf key data, payload.length = key.blockSize - 3) →
      (plainOf key data).length = blocks.payloadLength) := by
  have found := opened_of_ofResource opened
  have plain := (ofResource_sound opened).2
  have size : (plainOf key data).length =
      min blocks.payloadLength ((wholeOf key data).length - headerSize) := by
    rw [← plain, length_plain, found.hasKey, found.hasData]
  have room : blocks.payloadLength + headerSize ≤ capacity key data := by
    have room := found.room
    rwa [count, found.hasKey, found.hasData] at room
  have header := found.header
  refine ⟨?_, size, by omega, header, length_wholeOf_le, room, fun full => ?_⟩
  · let stream : Layered := { base := .blocks blocks, maskKey }
    have same : stream.Same stream := ⟨.blocks found.sound.refl, rfl⟩
    have whole : ¬ stream.IsBroken := by
      change ¬ (payloadsOf blocks.key blocks.data).length < blocks.count
      rw [count, found.hasKey, found.hasData, decrypts.length_payloadsOf]
      exact Nat.lt_irrefl _
    let view : View := { stream, cursor := { rule } }
    have reads := (View.readAll_drop (show stream.Same view.stream from same)).ends
    change ∃ after, View.readAll.run.run view = _
    generalize View.readAll.run.run view = outcome at reads ⊢
    obtain ⟨result, after⟩ := outcome
    cases result with
    | error fault => exact absurd reads whole
    | ok bytes =>
      refine ⟨after, ?_⟩
      rw [show bytes = (stream.text rule).drop 0 from reads, List.drop_zero, Layered.text,
        ← plain]
      rfl
  · have full := decrypts.length_wholeOf full
    omega

namespace ShortBlocks

def key : PublicKey := ⟨0xFFFFFFFFFFFFFFFFFFFFFFEF, 3⟩

/-- Two blocks with room for nine bytes each, which hold seven and four. The header announces
fourteen bytes: with itself, as many as there is room for. -/
def data : Bytes :=
  Bytes.ofNatBE 12 0x104FCFD63EACEA5115624525 ++ Bytes.ofNatBE 12 0x55BEC866A6D1E71BF69B1CB1

def blocks : Blocks := (Blocks.ofResource key data).toOption.getD { key, data }

theorem opens : Blocks.ofResource key data = .ok blocks :=
  eq_ok_of_isSome (by decide +kernel) { key, data }

/-- A resource is opened, and all of its blocks decrypt, though they do not hold what its header
announces; so reading it to the end gives fewer bytes than announced. -/
theorem not_announced :
    Blocks.ofResource key data = .ok blocks ∧ Blocks.Decrypts key data ∧
    ¬ blocks.payloadLength + Blocks.headerSize ≤ (Blocks.wholeOf key data).length ∧
    (View.readAll.run.run { stream := { base := .blocks blocks } }).1.toOption.map List.length =
      some 7 ∧
    blocks.payloadLength = 14 :=
  ⟨opens, by decide +kernel, by decide +kernel, by decide +kernel, by decide +kernel⟩

theorem readAll_announced_short :
    Blocks.ofResource key data = .ok blocks ∧ Blocks.Decrypts key data ∧
    Blocks.plainOf key data = [0x61, 0x62, 0x63, 0x64, 0x65, 0x66, 0x67] ∧
    Blocks.capacity key data = 18 ∧
    (∃ after, View.readAll.run.run
        { stream := { base := .blocks blocks, maskKey := some 0x55 }, cursor := {} } =
      (.ok (Cipher.plaintext (some 0x55) .position (Blocks.plainOf key data)), after)) ∧
    ((Blocks.plainOf key data).length = blocks.payloadLength ↔
      blocks.payloadLength + Blocks.headerSize ≤ (Blocks.wholeOf key data).length) := by
  have decrypts : Blocks.Decrypts key data := by decide +kernel
  have announced := Blocks.readAll_announced opens decrypts (some 0x55) .position
  exact ⟨opens, decrypts, by decide +kernel, by decide +kernel, announced.1, announced.2.2.1⟩

end ShortBlocks

end Stream

end CilRecovery
