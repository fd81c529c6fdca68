import Mathlib.Data.Nat.Basic
import Mathlib.Data.Set.Function
import CilRecovery.Cipher.Chain
import CilRecovery.Proofs.Bytes

/-!
The chain cipher undone. Each round consists of a table and a permutation of bits that have
inverses, whatever the round key; chaining and the masked tail then come apart word by word. So
decryption undoes encryption and encryption decryption, for messages of every length.
-/
namespace CilRecovery.Cipher.Chain

theorem mapNibbles_lt (table : Nat → Nat) (count n : Nat) : mapNibbles table count n < 16 ^ count := by
  induction count generalizing n with
  | zero => simp [mapNibbles]
  | succ count ih =>
    have rest := ih (n / 16)
    have low : table (n % 16) % 16 < 16 := Nat.mod_lt _ (by decide)
    rw [mapNibbles, Nat.pow_succ]
    omega

theorem mapNibbles_inverse {table inverse : Nat → Nat}
    (undoes : ∀ nibble < 16, inverse (table nibble % 16) % 16 = nibble) (count n : Nat) :
    mapNibbles inverse count (mapNibbles table count n) = n % 16 ^ count := by
  induction count generalizing n with
  | zero => simp [mapNibbles, Nat.mod_one]
  | succ count ih =>
    have low : table (n % 16) % 16 < 16 := Nat.mod_lt _ (by decide)
    have undone := undoes (n % 16) (Nat.mod_lt _ (by decide))
    have first : (table (n % 16) % 16 + 16 * mapNibbles table count (n / 16)) % 16 =
        table (n % 16) % 16 := by omega
    have others : (table (n % 16) % 16 + 16 * mapNibbles table count (n / 16)) / 16 =
        mapNibbles table count (n / 16) := by omega
    rw [mapNibbles, mapNibbles, first, others, ih, undone, Nat.pow_succ, Nat.mul_comm (16 ^ count),
      Nat.mod_mul]

theorem substitute_inverse {table inverse : Nat → Nat}
    (undoes : ∀ nibble < 16, inverse (table nibble % 16) % 16 = nibble) (word : UInt32) :
    substitute inverse (substitute table word) = word := by
  have bound := mapNibbles_lt table 8 word.toNat
  have small := word.toNat_lt
  have fits : (substitute table word).toNat = mapNibbles table 8 word.toNat :=
    UInt32.toNat_ofNat_of_lt' bound
  apply UInt32.toNat_inj.mp
  rw [substitute, fits, mapNibbles_inverse undoes, UInt32.toNat_ofNat']
  omega

theorem sboxInverse_sbox (word : UInt32) :
    substitute sboxInverse (substitute sbox word) = word :=
  substitute_inverse (by decide) word

theorem sbox_sboxInverse (word : UInt32) :
    substitute sbox (substitute sboxInverse word) = word :=
  substitute_inverse (by decide) word

theorem getLsbD_gatherBits (source : Nat → Nat) (word : UInt32) {i : Nat} (inside : i < 32) :
    (gatherBits source word).toBitVec.getLsbD i = word.toBitVec.getLsbD (source i) := by
  rw [gatherBits, UInt32.toBitVec_ofBitVec, BitVec.getLsbD_setWidth, BitVec.getLsbD_ofBoolListLE]
  simp [inside]

theorem gatherBits_inverse {source inverse : Nat → Nat}
    (undoes : ∀ i < 32, inverse i < 32 ∧ source (inverse i) = i) (word : UInt32) :
    gatherBits inverse (gatherBits source word) = word := by
  apply UInt32.toBitVec_inj.mp
  apply BitVec.eq_of_getLsbD_eq
  intro i inside
  obtain ⟨moved, back⟩ := undoes i inside
  rw [getLsbD_gatherBits _ _ inside, getLsbD_gatherBits _ _ moved, back]

theorem permuteInverse_permute (word : UInt32) : permuteInverse (permute word) = word :=
  gatherBits_inverse (by decide) word

theorem permute_permuteInverse (word : UInt32) : permute (permuteInverse word) = word :=
  gatherBits_inverse (by decide) word

namespace Key

theorem decryptRound_encryptRound (word roundKey : UInt32) :
    decryptRound (encryptRound word roundKey) roundKey = word := by
  rw [decryptRound, encryptRound, permuteInverse_permute, sboxInverse_sbox, UInt32.xor_assoc,
    UInt32.xor_self, UInt32.xor_zero]

theorem encryptRound_decryptRound (word roundKey : UInt32) :
    encryptRound (decryptRound word roundKey) roundKey = word := by
  rw [encryptRound, decryptRound, UInt32.xor_assoc, UInt32.xor_self, UInt32.xor_zero,
    sbox_sboxInverse, permute_permuteInverse]

/-- Rounds are undone one by one, the last one first. -/
theorem foldl_reverse_inverse {round inverse : UInt32 → UInt32 → UInt32}
    (undoes : ∀ word roundKey, inverse (round word roundKey) roundKey = word)
    (roundKeys : List UInt32) (word : UInt32) :
    roundKeys.reverse.foldl inverse (roundKeys.foldl round word) = word := by
  induction roundKeys generalizing word with
  | nil => rfl
  | cons roundKey rest ih =>
    rw [List.foldl_cons, List.reverse_cons, List.foldl_append, ih]
    exact undoes word roundKey

theorem decryptWord_encryptWord (key : Key) (word : UInt32) :
    key.decryptWord (key.encryptWord word) = word := by
  rw [decryptWord, encryptWord, UInt32.xor_assoc, UInt32.xor_self, UInt32.xor_zero,
    foldl_reverse_inverse decryptRound_encryptRound]

theorem encryptWord_decryptWord (key : Key) (word : UInt32) :
    key.encryptWord (key.decryptWord word) = word := by
  have rounds := foldl_reverse_inverse encryptRound_decryptRound key.rounds.reverse
    (word ^^^ key.last)
  rw [List.reverse_reverse] at rounds
  rw [encryptWord, decryptWord, rounds, UInt32.xor_assoc, UInt32.xor_self, UInt32.xor_zero]

@[simp]
theorem length_wordBytes (word : UInt32) : (wordBytes word).length = 4 := by
  simp [wordBytes]

theorem wordOf_wordBytes {word : UInt32} {p q r s : UInt8} (bytes : wordBytes word = [p, q, r, s]) :
    wordOf p q r s = word := by
  have small := word.toNat_lt
  apply UInt32.toNat_inj.mp
  rw [wordOf, ← bytes, wordBytes, Bytes.toNat_ofNat, UInt32.toNat_ofNat']
  omega

theorem wordBytes_wordOf (p q r s : UInt8) : wordBytes (wordOf p q r s) = [p, q, r, s] := by
  have value : (wordOf p q r s).toNat = Bytes.toNat [p, q, r, s] := by
    have bound := Bytes.toNat_lt [p, q, r, s]
    rw [wordOf, UInt32.toNat_ofNat', Nat.mod_eq_of_lt (by simpa using bound)]
  rw [wordBytes, value]
  exact Bytes.ofNat_toNat [p, q, r, s]

theorem exists_wordBytes (word : UInt32) : ∃ p q r s, wordBytes word = [p, q, r, s] :=
  ⟨_, _, _, _, rfl⟩

theorem maskTail_maskTail (key : Key) (previous : UInt32) {tail : Bytes} (short : tail.length ≤ 4) :
    key.maskTail previous (key.maskTail previous tail) = tail := by
  simp only [maskTail]
  generalize fits : wordBytes (key.encryptWord previous) = mask
  have length : tail.length ≤ mask.length := by
    rw [← fits, length_wordBytes]
    exact short
  clear fits short
  induction tail generalizing mask with
  | nil => rfl
  | cons b rest ih =>
    cases mask with
    | nil => simp at length
    | cons m mask =>
      have rest := ih mask (by simpa using length)
      rw [List.zipWith_cons_cons, List.zipWith_cons_cons, rest, UInt8.xor_assoc, UInt8.xor_self,
        UInt8.xor_zero]

theorem length_maskTail (key : Key) (previous : UInt32) {tail : Bytes} (short : tail.length ≤ 4) :
    (key.maskTail previous tail).length = tail.length := by
  simp [maskTail, short]

theorem decryptFrom_wordBytes (key : Key) (previous word : UInt32) (rest : Bytes) :
    key.decryptFrom previous (wordBytes word ++ rest) =
      wordBytes (key.decryptWord word ^^^ previous) ++ key.decryptFrom word rest := by
  obtain ⟨p, q, r, s, bytes⟩ := exists_wordBytes word
  rw [bytes, List.cons_append, List.cons_append, List.cons_append, List.cons_append,
    List.nil_append, decryptFrom, wordOf_wordBytes bytes]

theorem encryptFrom_wordBytes (key : Key) (previous word : UInt32) (rest : Bytes) :
    key.encryptFrom previous (wordBytes word ++ rest) =
      wordBytes (key.encryptWord (word ^^^ previous)) ++
        key.encryptFrom (key.encryptWord (word ^^^ previous)) rest := by
  obtain ⟨p, q, r, s, bytes⟩ := exists_wordBytes word
  rw [bytes, List.cons_append, List.cons_append, List.cons_append, List.cons_append,
    List.nil_append, encryptFrom, wordOf_wordBytes bytes]

theorem decryptFrom_short (key : Key) (previous : UInt32) {tail : Bytes} (short : tail.length < 4) :
    key.decryptFrom previous tail = key.maskTail previous tail := by
  match tail, short with
  | [], _ | [_], _ | [_, _], _ | [_, _, _], _ => rfl

theorem encryptFrom_short (key : Key) (previous : UInt32) {tail : Bytes} (short : tail.length < 4) :
    key.encryptFrom previous tail = key.maskTail previous tail := by
  match tail, short with
  | [], _ | [_], _ | [_, _], _ | [_, _, _], _ => rfl

/-- Induction over a message word by word, down to a tail of less than a word. -/
@[elab_as_elim]
theorem words_induction {motive : Bytes → Prop}
    (short : ∀ tail : Bytes, tail.length < 4 → motive tail)
    (word : ∀ p q r s rest, motive rest → motive (p :: q :: r :: s :: rest)) :
    ∀ data, motive data
  | p :: q :: r :: s :: rest => word p q r s rest (words_induction short word rest)
  | [] => short [] (by decide)
  | [_] => short [_] (by simp)
  | [_, _] => short [_, _] (by simp)
  | [_, _, _] => short [_, _, _] (by simp)

theorem decryptFrom_encryptFrom (key : Key) (previous : UInt32) (data : Bytes) :
    key.decryptFrom previous (key.encryptFrom previous data) = data := by
  induction data using words_induction generalizing previous with
  | short tail short =>
    have masked := length_maskTail key previous (Nat.le_of_lt short)
    rw [encryptFrom_short key previous short, decryptFrom_short key previous (masked ▸ short),
      maskTail_maskTail key previous (Nat.le_of_lt short)]
  | word p q r s rest ih =>
    rw [encryptFrom, decryptFrom_wordBytes, ih, decryptWord_encryptWord, UInt32.xor_assoc,
      UInt32.xor_self, UInt32.xor_zero, wordBytes_wordOf]
    rfl

theorem encryptFrom_decryptFrom (key : Key) (previous : UInt32) (data : Bytes) :
    key.encryptFrom previous (key.decryptFrom previous data) = data := by
  induction data using words_induction generalizing previous with
  | short tail short =>
    have masked := length_maskTail key previous (Nat.le_of_lt short)
    rw [decryptFrom_short key previous short, encryptFrom_short key previous (masked ▸ short),
      maskTail_maskTail key previous (Nat.le_of_lt short)]
  | word p q r s rest ih =>
    rw [decryptFrom, encryptFrom_wordBytes, UInt32.xor_assoc, UInt32.xor_self, UInt32.xor_zero,
      encryptWord_decryptWord, ih, wordBytes_wordOf]
    rfl

theorem length_encryptFrom (key : Key) (previous : UInt32) (data : Bytes) :
    (key.encryptFrom previous data).length = data.length := by
  induction data using words_induction generalizing previous with
  | short tail short =>
    rw [encryptFrom_short key previous short, length_maskTail key previous (Nat.le_of_lt short)]
  | word p q r s rest ih =>
    rw [encryptFrom, List.length_append, length_wordBytes, ih]
    simp only [List.length_cons]
    omega

/-- A guarded range is opened with the key that it was closed with. -/
@[simp]
theorem decrypt_encrypt (key : Key) (data : Bytes) : key.decrypt (key.encrypt data) = data :=
  decryptFrom_encryptFrom key key.start data

@[simp]
theorem encrypt_decrypt (key : Key) (data : Bytes) : key.encrypt (key.decrypt data) = data :=
  encryptFrom_decryptFrom key key.start data

@[simp]
theorem length_encrypt (key : Key) (data : Bytes) : (key.encrypt data).length = data.length :=
  length_encryptFrom key key.start data

@[simp]
theorem length_decrypt (key : Key) (data : Bytes) : (key.decrypt data).length = data.length := by
  rw [← length_encrypt, encrypt_decrypt]

/-- Whatever its rounds and its starting word, a key permutes the messages of each length, and
decryption is the inverse of encryption on both sides. -/
theorem encrypt_permutes (key : Key) :
    (∀ data, (key.encrypt data).length = data.length) ∧
      (∀ data, key.decrypt (key.encrypt data) = data) ∧
      (∀ data, key.encrypt (key.decrypt data) = data) ∧
      ∀ length, Set.BijOn key.encrypt {data | data.length = length}
        {data | data.length = length} := by
  refine ⟨key.length_encrypt, key.decrypt_encrypt, key.encrypt_decrypt, fun length => ?_⟩
  have inverse : Set.InvOn key.decrypt key.encrypt {data | data.length = length}
      {data | data.length = length} :=
    ⟨fun data _ => key.decrypt_encrypt data, fun data _ => key.encrypt_decrypt data⟩
  exact inverse.bijOn (fun data is => (key.length_encrypt data).trans is)
    fun data is => (key.length_decrypt data).trans is

end Key

end CilRecovery.Cipher.Chain
