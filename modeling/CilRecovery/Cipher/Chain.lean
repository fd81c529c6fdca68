import CilRecovery.Digest.KeyDerivation
import CilRecovery.Metadata.Token
import CilRecovery.Text.Utf8

/-!
The chain cipher that guards ranges of a method: a substitution and permutation network over
words of 32 bits with a key of 80 bits. Whole words are chained; a tail of less than a word is
masked with the encryption of the last word, so a message keeps its length.
-/
namespace CilRecovery.Cipher.Chain

/-- The substitution of four bits. -/
def sbox (nibble : Nat) : Nat :=
  [0xC, 0x5, 0x6, 0xB, 0x9, 0x0, 0xA, 0xD, 0x3, 0xE, 0xF, 0x8, 0x4, 0x7, 0x1, 0x2].getD nibble 0

/-- The substitution undone. -/
def sboxInverse (nibble : Nat) : Nat :=
  [0x5, 0xE, 0xF, 0x8, 0xC, 0x1, 0x2, 0xD, 0xB, 0x4, 0x6, 0x3, 0x0, 0x7, 0x9, 0xA].getD nibble 0

/-- Replaces the `count` lowest groups of four bits. -/
def mapNibbles (table : Nat → Nat) : (count n : Nat) → Nat
  | 0, _ => 0
  | count + 1, n => table (n % 16) % 16 + 16 * mapNibbles table count (n / 16)

def substitute (table : Nat → Nat) (word : UInt32) : UInt32 :=
  UInt32.ofNat (mapNibbles table 8 word.toNat)

/-- The word whose bit `i` is bit `source i` of the given word. -/
def gatherBits (source : Nat → Nat) (word : UInt32) : UInt32 :=
  let bits := (List.range 32).map fun i => word.toBitVec.getLsbD (source i)
  UInt32.ofBitVec ((BitVec.ofBoolListLE bits).setWidth 32)

/-- Moves bit `i` to place `8 i` modulo 31; the highest bit stays. -/
def permute : UInt32 → UInt32 :=
  gatherBits fun i => if i = 31 then 31 else i * 4 % 31

/-- Moves bit `i` to place `4 i` modulo 31; the highest bit stays. -/
def permuteInverse : UInt32 → UInt32 :=
  gatherBits fun i => if i = 31 then 31 else i * 8 % 31

/-- An expanded key: one word for each of five rounds, one for the end, and the word that the
first block is chained to. -/
structure Key where
  rounds : List UInt32
  last : UInt32
  start : UInt32
  deriving DecidableEq, Repr

/-- One step of the key register of 80 bits. -/
def nextRegister (round register : Nat) : Nat :=
  let turned := ((register <<< 61) ||| (register >>> 19)) % (1 <<< 80)
  let mixed := turned % (1 <<< 76) + sbox (turned >>> 76) <<< 76
  mixed ^^^ (((round + 1) % 32) <<< 15)

/-- The round keys that a register yields, `count` of them from number `round` on. -/
def roundKeys : (count round register : Nat) → List UInt32
  | 0, _, _ => []
  | count + 1, round, register =>
    UInt32.ofNat (register >>> 48) :: roundKeys count (round + 1) (nextRegister round register)

namespace Key

/-- Expands a key of ten bytes, most significant first, and a starting word of four bytes, least
significant first. -/
def ofBytes (key start : Bytes) : Key :=
  let words := roundKeys 6 0 key.toNatBE
  ⟨words.take 5, words.getD 5 0, UInt32.ofNat start.toNat⟩

/-- How often a password is stretched. -/
def iterations : Nat := 1000

/-- The key that a password and a salt give. -/
def derive (password : String) (salt : Bytes) : Key :=
  let material := Digest.deriveKey (Text.Utf8.encode password.toList) salt iterations 14
  ofBytes (material.take 10) (material.drop 10)

/-- The key of the guarded range with number `ordinal` in the method `token`. -/
def forRange (password : String) (token : Token) (ordinal : Nat) : Key :=
  derive password (Bytes.ofNat 4 token.value.toNat ++ Bytes.ofNat 4 ordinal)

def encryptRound (word roundKey : UInt32) : UInt32 :=
  permute (substitute sbox (word ^^^ roundKey))

def decryptRound (word roundKey : UInt32) : UInt32 :=
  substitute sboxInverse (permuteInverse word) ^^^ roundKey

def encryptWord (key : Key) (word : UInt32) : UInt32 :=
  key.rounds.foldl encryptRound word ^^^ key.last

def decryptWord (key : Key) (word : UInt32) : UInt32 :=
  key.rounds.reverse.foldl decryptRound (word ^^^ key.last)

/-- The four bytes of a word, least significant first. -/
def wordBytes (word : UInt32) : Bytes := Bytes.ofNat 4 word.toNat

/-- The word of four bytes, least significant first. -/
def wordOf (p q r s : UInt8) : UInt32 := UInt32.ofNat (Bytes.toNat [p, q, r, s])

/-- Masks less than a word with the encryption of the word before it. -/
def maskTail (key : Key) (previous : UInt32) (tail : Bytes) : Bytes :=
  List.zipWith (· ^^^ ·) tail (wordBytes (key.encryptWord previous))

def encryptFrom (key : Key) (previous : UInt32) : Bytes → Bytes
  | p :: q :: r :: s :: rest =>
    let word := key.encryptWord (wordOf p q r s ^^^ previous)
    wordBytes word ++ key.encryptFrom word rest
  | tail => key.maskTail previous tail

def decryptFrom (key : Key) (previous : UInt32) : Bytes → Bytes
  | p :: q :: r :: s :: rest =>
    let word := wordOf p q r s
    wordBytes (key.decryptWord word ^^^ previous) ++ key.decryptFrom word rest
  | tail => key.maskTail previous tail

def encrypt (key : Key) (data : Bytes) : Bytes := key.encryptFrom key.start data

def decrypt (key : Key) (data : Bytes) : Bytes := key.decryptFrom key.start data

end Key

end CilRecovery.Cipher.Chain
