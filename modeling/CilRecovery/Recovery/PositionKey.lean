import CilRecovery.Base64
import CilRecovery.Error

/-!
Position keys: where the record of a method starts in the method stream, and the seed of its
counter. The stub of a method holds both words, masked and in Base64.
-/
namespace CilRecovery

structure PositionKey where
  /-- Where the method record starts. -/
  offset : UInt32
  /-- The seed of the counter of the method body. -/
  seed : UInt32
  deriving DecidableEq, Repr

namespace PositionKey

/-- The key as it stands in a stub: two masked words, least significant bytes first. -/
def encode (mask : UInt32) (key : PositionKey) : String :=
  let bytes :=
    Bytes.ofNat 4 (key.offset ^^^ mask).toNat ++ Bytes.ofNat 4 (key.seed ^^^ mask).toNat
  String.ofList (Base64.encode bytes)

/-- Reads a key, which must be eight bytes in Base64. -/
def decode (mask : UInt32) (text : String) : Except Error PositionKey :=
  match Base64.decode? text.toList with
  | none => .error (.crypto ("Position key '" ++ text ++ "' is not base64"))
  | some bytes =>
    if bytes.length = 8 then
      let word (part : Bytes) : UInt32 := UInt32.ofNat part.toNat ^^^ mask
      .ok ⟨word (bytes.take 4), word (bytes.drop 4)⟩
    else
      .error (.crypto ("Position key '" ++ text ++ "' decodes to " ++ toString bytes.length ++
        " bytes"))

end PositionKey

end CilRecovery
