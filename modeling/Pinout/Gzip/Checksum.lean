import Pinout.Octets

/-!
The cyclic redundancy check of 32 bits over octets, least significant bit first.
-/

namespace Pinout.Gzip

/-- Eight bits of the remainder: each shifts it, and adds the polynomial if a one falls out. -/
def shift : Nat → UInt32 → UInt32
  | 0, r => r
  | n + 1, r => shift n (if r &&& 1 = 1 then (r >>> 1) ^^^ 0xedb88320 else r >>> 1)

def crcStep (r : UInt32) (b : UInt8) : UInt32 := shift 8 (r ^^^ b.toUInt32)

def crc32 (os : Octets) : UInt32 := os.foldl crcStep 0xffffffff ^^^ 0xffffffff

/-- The number that octets stand for, the least significant first. -/
def littleEndian : Octets → Nat
  | [] => 0
  | b :: rest => b.toNat + 256 * littleEndian rest

end Pinout.Gzip
