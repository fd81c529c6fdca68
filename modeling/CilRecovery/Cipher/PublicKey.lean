import CilRecovery.Error
import CilRecovery.Bytes

/-!
Public keys of the block layer. A block is as wide as the modulus; raised to the public exponent
it holds a payload behind padding of type 1 (bytes 255) or 2 (bytes other than zero).
-/
namespace CilRecovery.Cipher

/-- The number of bytes that a number needs. -/
def byteWidth (n : Nat) : Nat :=
  if n = 0 then 0 else n.log2 / 8 + 1

/-- `base ^ exponent % modulus`, for an exponent of at most `bits` bits. -/
def powMod (modulus : Nat) : (bits base exponent : Nat) → Nat
  | 0, _, _ => 1 % modulus
  | bits + 1, base, exponent =>
    let square := powMod modulus bits (base * base % modulus) (exponent / 2)
    if exponent % 2 = 1 then base * square % modulus else square

/-- A public key. -/
structure PublicKey where
  modulus : Nat
  exponent : UInt32
  deriving DecidableEq, Repr

namespace PublicKey

/-- The public exponent in common use. -/
def defaultExponent : UInt32 := 65537

/-- The width of a block in bytes. -/
def blockSize (key : PublicKey) : Nat := byteWidth key.modulus

/-- Refuses a modulus of less than twelve bytes and an exponent below three. -/
def ofModulus (modulus : Nat) (exponent : UInt32) : Except Error PublicKey :=
  if byteWidth modulus < 12 then
    .error (.crypto ("RSA modulus of " ++ toString (byteWidth modulus) ++ " bytes is too small"))
  else if exponent < 3 then
    .error (.crypto ("Invalid RSA exponent " ++ toString exponent.toNat))
  else .ok ⟨modulus, exponent⟩

/-- A modulus in hexadecimal digits: one plus sign may stand in front and underscores between. -/
def modulusOfHex? (text : List Char) : Option Nat :=
  match Text.dropPlus text with
  | [] => none
  | '_' :: _ => none
  | digits => Text.digitsValue? 16 0 (digits.filter (· != '_'))

/-- A key whose modulus is given in hexadecimal digits, blanks around them allowed. -/
def ofHex (text : String) (exponent : UInt32) : Except Error PublicKey :=
  match modulusOfHex? (Text.trim text.toList) with
  | some modulus => ofModulus modulus exponent
  | none => .error (.crypto "RSA modulus is not valid hex")

/-- The payload behind the padding. -/
def unpad : Bytes → Except Error Bytes
  | 0 :: kind :: b :: rest =>
    let padded := b :: rest
    if kind = 1 then
      match padded.dropWhile (· == 0xFF) with
      | 0 :: payload => .ok payload
      | _ => .error (.crypto "PKCS#1 separator not found")
    else if kind = 2 then
      match padded.dropWhile (· != 0) with
      | _ :: payload => .ok payload
      | [] => .error (.crypto "PKCS#1 separator not found")
    else .error (.crypto ("Unsupported PKCS#1 block type " ++ toString kind.toNat))
  | _ => .error (.crypto "Invalid PKCS#1 block header")

/-- The payload of one block. -/
def decryptBlock (key : PublicKey) (block : Bytes) : Except Error Bytes :=
  if block.length ≠ key.blockSize then
    .error (.crypto ("RSA block of " ++ toString block.length ++ " bytes, expected " ++
      toString key.blockSize))
  else if key.modulus ≤ block.toNatBE then .error (.crypto "RSA block exceeds modulus")
  else
    unpad (Bytes.ofNatBE key.blockSize (powMod key.modulus 32 block.toNatBE key.exponent.toNat))

end PublicKey

end CilRecovery.Cipher
