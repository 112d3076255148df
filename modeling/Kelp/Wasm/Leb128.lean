import Kelp.Bytes

/-!
# LEB128

Integers as little-endian groups of seven bits, with the high bit of each byte telling that another
one follows. The shortest form is used.
-/

namespace Kelp.Wasm.Leb128

/-- The unsigned form, in at most `fuel + 1` bytes. -/
def unsignedUpTo : (fuel : Nat) → Nat → Bytes
  | 0, n => [UInt8.ofNat n]
  | fuel + 1, n =>
    if n < 128 then [UInt8.ofNat n]
    else UInt8.ofNat (n % 128 + 128) :: unsignedUpTo fuel (n / 128)

/-- The unsigned form of a number. -/
def unsigned (n : Nat) : Bytes := unsignedUpTo n n

/-- The signed form, in at most `fuel + 1` bytes. The last byte's second highest bit is the sign. -/
def signedUpTo : (fuel : Nat) → Int → Bytes
  | 0, n => [UInt8.ofNat (n % 128).toNat]
  | fuel + 1, n =>
    if -64 ≤ n ∧ n < 64 then [UInt8.ofNat (n % 128).toNat]
    else UInt8.ofNat ((n % 128).toNat + 128) :: signedUpTo fuel (n / 128)

/-- The signed form of an integer. -/
def signed (n : Int) : Bytes := signedUpTo n.natAbs n

end Kelp.Wasm.Leb128
