/-!
Byte strings and the numbers written in them. `Bytes.toNat` reads the least significant byte
first, `Bytes.toNatBE` the most significant one.
-/
namespace CilRecovery

/-- A run of bytes. -/
abbrev Bytes := List UInt8

namespace Bytes

/-- The number whose base 256 digits are the bytes, least significant first. -/
def toNat : Bytes → Nat
  | [] => 0
  | b :: rest => b.toNat + 256 * toNat rest

/-- The `width` lowest base 256 digits of a number, least significant first. -/
def ofNat : (width : Nat) → Nat → Bytes
  | 0, _ => []
  | width + 1, n => UInt8.ofNat (n % 256) :: ofNat width (n / 256)

/-- The number whose base 256 digits are the bytes, most significant first. -/
def toNatBE (bytes : Bytes) : Nat :=
  toNat bytes.reverse

/-- The `width` lowest base 256 digits of a number, most significant first. -/
def ofNatBE (width n : Nat) : Bytes :=
  (ofNat width n).reverse

/-- The `count` bytes from `position` on, fewer where the bytes end sooner. -/
def slice (bytes : Bytes) (position count : Nat) : Bytes :=
  (bytes.drop position).take count

@[simp]
theorem length_ofNat (width n : Nat) : (ofNat width n).length = width := by
  induction width generalizing n with
  | zero => rfl
  | succ width ih => simp [ofNat, ih]

@[simp]
theorem length_ofNatBE (width n : Nat) : (ofNatBE width n).length = width := by
  simp [ofNatBE]

end Bytes

end CilRecovery
