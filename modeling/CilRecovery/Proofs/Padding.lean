import Mathlib.Data.List.TakeWhile
import Mathlib.Data.Nat.ModEq
import CilRecovery.Cipher.PublicKey
import CilRecovery.Proofs.Bytes
import CilRecovery.Proofs.Outcome

/-!
Blocks under a public key. A block decrypts just where raising it to the public exponent gives a
payload behind padding of type 1 or 2; everything else is a failure of decryption.
-/
namespace CilRecovery

def Error.IsCrypto (e : Error) : Prop := ∃ reason, e = crypto reason

namespace Bytes

theorem toNatBE_ofNatBE (width n : Nat) : toNatBE (ofNatBE width n) = n % 256 ^ width := by
  rw [toNatBE, ofNatBE, List.reverse_reverse, toNat_ofNat]

theorem ofNatBE_toNatBE (bytes : Bytes) : ofNatBE bytes.length (toNatBE bytes) = bytes := by
  rw [toNatBE, ofNatBE, ← List.length_reverse, ofNat_toNat, List.reverse_reverse]

/-- The bytes of a width that write a number are the only ones that do. -/
theorem eq_ofNatBE_iff {bytes : Bytes} {width n : Nat} (fits : n < 256 ^ width) :
    bytes = ofNatBE width n ↔ bytes.length = width ∧ bytes.toNatBE = n := by
  constructor
  · rintro rfl
    exact ⟨length_ofNatBE width n, by rw [toNatBE_ofNatBE, Nat.mod_eq_of_lt fits]⟩
  · rintro ⟨rfl, rfl⟩
    exact (ofNatBE_toNatBE bytes).symm

end Bytes

namespace Cipher

/-! ### Numbers -/

/-- Squaring and multiplying comes to the remainder of the power. -/
theorem powMod_eq (modulus : Nat) {bits exponent : Nat} (base : Nat)
    (small : exponent < 2 ^ bits) :
    powMod modulus bits base exponent = base ^ exponent % modulus := by
  induction bits generalizing base exponent with
  | zero =>
    rw [Nat.pow_zero, Nat.lt_one_iff] at small
    rw [small, pow_zero, powMod]
  | succ bits ih =>
    have half : exponent / 2 < 2 ^ bits := by
      rw [Nat.pow_succ] at small
      omega
    have square : powMod modulus bits (base * base % modulus) (exponent / 2) =
        base ^ (2 * (exponent / 2)) % modulus := by
      rw [ih _ half, ← Nat.pow_mod, ← pow_two, ← pow_mul]
    have parts : 2 * (exponent / 2) + exponent % 2 = exponent := Nat.div_add_mod exponent 2
    rw [powMod, square]
    split
    · rename_i odd
      rw [Nat.mul_mod_mod, ← pow_succ', ← odd, parts]
    · rename_i even
      rw [show 2 * (exponent / 2) = exponent by omega]

/-- The width of a number is the least number of bytes that hold it. -/
theorem byteWidth_bounds {n : Nat} (positive : 0 < n) :
    256 ^ (byteWidth n - 1) ≤ n ∧ n < 256 ^ byteWidth n := by
  have inBits (count : Nat) : 256 ^ count = 2 ^ (8 * count) := by
    rw [pow_mul]
    rfl
  rw [byteWidth, if_neg (Nat.ne_of_gt positive), Nat.add_sub_cancel, inBits, inBits]
  constructor
  · calc 2 ^ (8 * (n.log2 / 8))
      _ ≤ 2 ^ n.log2 := Nat.pow_le_pow_right (by decide) (by omega)
      _ ≤ n := Nat.log2_self_le (Nat.ne_of_gt positive)
  · calc n
      _ < 2 ^ (n.log2 + 1) := Nat.lt_log2_self
      _ ≤ 2 ^ (8 * (n.log2 / 8 + 1)) := Nat.pow_le_pow_right (by decide) (by omega)

/-! ### Padding -/

theorem dropWhile_eq_cons_iff {p : α → Bool} {list rest : List α} {stop : α} :
    list.dropWhile p = stop :: rest ↔
      ∃ front, (∀ a ∈ front, p a = true) ∧ p stop = false ∧ list = front ++ stop :: rest := by
  constructor
  · intro drops
    refine ⟨list.takeWhile p, fun a => List.mem_takeWhile_imp, ?_, ?_⟩
    · have head := List.head_dropWhile_not p (l := list) (by simp [drops])
      simpa [drops] using head
    · rw [← drops, List.takeWhile_append_dropWhile]
  · rintro ⟨front, passed, stops, rfl⟩
    rw [List.dropWhile_append_of_pos passed, List.dropWhile_cons_of_neg (by simp [stops])]

/-- Bytes with a payload behind padding, which may be empty. -/
inductive Padded (payload : Bytes) : Bytes → Prop where
  /-- Padding of type 1: bytes 255. -/
  | ones (count : Nat) : Padded payload (0 :: 1 :: (List.replicate count 0xFF ++ 0 :: payload))
  /-- Padding of type 2: bytes other than zero. -/
  | nonzero (padding : Bytes) (each : ∀ b ∈ padding, b ≠ 0) :
    Padded payload (0 :: 2 :: (padding ++ 0 :: payload))

namespace Padded

variable {payload encoded : Bytes}

theorem length_le (padded : Padded payload encoded) : payload.length + 3 ≤ encoded.length := by
  cases padded <;> simp only [List.length_cons, List.length_append] <;> omega

theorem ones_iff {padded : Bytes} :
    padded.dropWhile (· == 0xFF) = 0 :: payload ↔ Padded payload (0 :: 1 :: padded) := by
  rw [dropWhile_eq_cons_iff]
  constructor
  · rintro ⟨front, full, -, rfl⟩
    have same : front = List.replicate front.length 0xFF :=
      List.eq_replicate_of_mem fun b member => by simpa using full b member
    rw [same]
    exact .ones _
  · rintro ⟨count⟩
    exact ⟨List.replicate count 0xFF, by simp, rfl, rfl⟩

theorem nonzero_iff {padded : Bytes} :
    (∃ separator, padded.dropWhile (· != 0) = separator :: payload) ↔
      Padded payload (0 :: 2 :: padded) := by
  simp only [dropWhile_eq_cons_iff]
  constructor
  · rintro ⟨separator, front, each, stops, rfl⟩
    obtain rfl : separator = 0 := by simpa using stops
    exact .nonzero front (by simpa using each)
  · rintro ⟨⟩
    rename_i padding each
    exact ⟨0, padding, by simpa using each, rfl, rfl⟩

end Padded

namespace PublicKey

/-- Just padded payloads are accepted. -/
theorem unpad_eq_ok_iff {encoded payload : Bytes} :
    unpad encoded = .ok payload ↔ Padded payload encoded := by
  constructor
  · intro unpads
    unfold unpad at unpads
    split at unpads
    · rename_i kind b rest
      dsimp only at unpads
      split at unpads
      · rename_i one
        subst one
        split at unpads
        · rename_i drops
          cases unpads
          exact Padded.ones_iff.mp drops
        · cases unpads
      · split at unpads
        · rename_i two
          subst two
          split at unpads
          · rename_i drops
            cases unpads
            exact Padded.nonzero_iff.mp ⟨_, drops⟩
          · cases unpads
        · cases unpads
    · cases unpads
  · intro padded
    cases padded with
    | ones count =>
      have drops := Padded.ones_iff.mpr (Padded.ones count : Padded payload _)
      obtain ⟨b, rest, is⟩ := List.exists_cons_of_ne_nil
        (show List.replicate count 0xFF ++ 0 :: payload ≠ [] by simp)
      rw [is] at drops ⊢
      simp [unpad, drops]
    | nonzero padding each =>
      obtain ⟨separator, drops⟩ :=
        Padded.nonzero_iff.mpr (Padded.nonzero padding each : Padded payload _)
      obtain ⟨b, rest, is⟩ := List.exists_cons_of_ne_nil
        (show padding ++ 0 :: payload ≠ [] by simp)
      rw [is] at drops ⊢
      simp [unpad, drops]

theorem unpad_onlyFails (encoded : Bytes) : OnlyFails Error.IsCrypto (unpad encoded) := by
  unfold unpad
  split
  · dsimp only
    split
    · split
      · exact .ok _
      · exact .error ⟨_, rfl⟩
    · split
      · split
        · exact .ok _
        · exact .error ⟨_, rfl⟩
      · exact .error ⟨_, rfl⟩
  · exact .error ⟨_, rfl⟩

/-! ### Blocks -/

section

variable {n : Nat} {exponent : UInt32} {key : PublicKey} {block payload : Bytes}

/-- A block of a key: its number is below the modulus, and raised to the exponent it comes to bytes
with the payload behind padding. -/
structure Opens (key : PublicKey) (block payload : Bytes) : Prop where
  size : block.length = key.blockSize
  below : block.toNatBE < key.modulus
  raised : ∃ encoded : Bytes, encoded.length = key.blockSize ∧
    encoded.toNatBE = block.toNatBE ^ key.exponent.toNat % key.modulus ∧ Padded payload encoded

theorem decryptBlock_onlyFails (key : PublicKey) (block : Bytes) :
    OnlyFails Error.IsCrypto (key.decryptBlock block) := by
  unfold decryptBlock
  split
  · exact .error ⟨_, rfl⟩
  · split
    · exact .error ⟨_, rfl⟩
    · exact unpad_onlyFails _

/-- The block of a key is just wide enough for its modulus. -/
theorem blockSize_bounds (positive : 0 < key.modulus) :
    256 ^ (key.blockSize - 1) ≤ key.modulus ∧ key.modulus < 256 ^ key.blockSize :=
  byteWidth_bounds positive

theorem decryptBlock_eq_ok_iff : key.decryptBlock block = .ok payload ↔ key.Opens block payload := by
  have raised (below : block.toNatBE < key.modulus) (encoded : Bytes) :
      encoded = Bytes.ofNatBE key.blockSize
          (powMod key.modulus 32 block.toNatBE key.exponent.toNat) ↔
        encoded.length = key.blockSize ∧
          encoded.toNatBE = block.toNatBE ^ key.exponent.toNat % key.modulus := by
    have positive : 0 < key.modulus := Nat.zero_lt_of_lt below
    rw [powMod_eq _ _ key.exponent.toNat_lt]
    exact Bytes.eq_ofNatBE_iff ((Nat.mod_lt _ positive).trans (blockSize_bounds positive).2)
  unfold decryptBlock
  split
  · rename_i other
    exact ⟨nofun, fun opens => absurd opens.size other⟩
  · rename_i size
    split
    · rename_i above
      exact ⟨nofun, fun opens => absurd above (Nat.not_le.mpr opens.below)⟩
    · rename_i below
      rw [not_not] at size
      rw [Nat.not_le] at below
      rw [unpad_eq_ok_iff]
      constructor
      · intro padded
        obtain ⟨length, value⟩ := (raised below _).mp rfl
        exact ⟨size, below, _, length, value, padded⟩
      · rintro ⟨-, -, encoded, length, value, padded⟩
        rwa [← (raised below encoded).mpr ⟨length, value⟩]

theorem Opens.length_le (opens : key.Opens block payload) : payload.length + 3 ≤ key.blockSize := by
  obtain ⟨-, -, encoded, length, -, padded⟩ := opens
  rw [← length]
  exact padded.length_le

/-- The keys that are accepted have blocks that just hold the modulus. Under such a key a block
decrypts to a payload just where raising it to the exponent puts padding in front of the payload,
and else there is an error of decryption. -/
theorem decryptBlock_exact (accepted : ofModulus n exponent = .ok key) (block : Bytes) :
    key.modulus = n ∧ key.exponent = exponent ∧
    256 ^ (key.blockSize - 1) ≤ n ∧ n < 256 ^ key.blockSize ∧
    (∀ payload, key.decryptBlock block = .ok payload ↔ key.Opens block payload) ∧
    (∀ payload, key.decryptBlock block = .ok payload → payload.length + 3 ≤ key.blockSize) ∧
    ((¬ ∃ payload, key.Opens block payload) ↔
      ∃ reason, key.decryptBlock block = .error (.crypto reason)) := by
  have positive : 0 < n := by
    rcases Nat.eq_zero_or_pos n with rfl | positive
    · cases accepted
    · exact positive
  obtain rfl : key = ⟨n, exponent⟩ := by
    unfold ofModulus at accepted
    split_ifs at accepted
    cases accepted
    rfl
  obtain ⟨lower, upper⟩ := @blockSize_bounds ⟨n, exponent⟩ positive
  refine ⟨rfl, rfl, lower, upper, fun payload => decryptBlock_eq_ok_iff,
    fun payload decrypts => (decryptBlock_eq_ok_iff.mp decrypts).length_le, ?_, ?_⟩
  · intro none
    cases result : decryptBlock ⟨n, exponent⟩ block with
    | ok payload => exact absurd ⟨payload, decryptBlock_eq_ok_iff.mp result⟩ none
    | error e =>
      obtain ⟨reason, rfl⟩ := decryptBlock_onlyFails _ _ e result
      exact ⟨reason, rfl⟩
  · rintro ⟨reason, fails⟩ ⟨payload, opens⟩
    cases fails.symm.trans (decryptBlock_eq_ok_iff.mpr opens)

end

namespace EmptyPadding

def key : PublicKey := ⟨0xFFFFFFFFFFFFFFFFFFFFFFEF, 3⟩

/-- A block with as much payload as there is room for. -/
def block : Bytes := Bytes.ofNatBE 12 0x14A5B8F63BA9661EC7687E00

def payload : Bytes := [0x70, 0x71, 0x72, 0, 0x74, 0x75, 0x76, 0x77, 0x78]

theorem decryptBlock_exact_empty :
    ofModulus 0xFFFFFFFFFFFFFFFFFFFFFFEF 3 = .ok key ∧ key.Opens block payload ∧
      key.decryptBlock block = .ok payload ∧ payload.length + 3 = key.blockSize := by
  have accepted : ofModulus 0xFFFFFFFFFFFFFFFFFFFFFFEF 3 = .ok key := by rfl
  have opens : key.Opens block payload :=
    ⟨by decide +kernel, by decide +kernel, 0 :: 2 :: ([] ++ 0 :: payload), by decide +kernel,
      by decide +kernel, .nonzero [] (by simp)⟩
  obtain ⟨-, -, -, -, decrypts, -⟩ := decryptBlock_exact accepted block
  exact ⟨accepted, opens, (decrypts payload).mpr opens, by decide +kernel⟩

end EmptyPadding

end PublicKey

end Cipher

end CilRecovery
