import Pinout.Gzip.Inflate

/-!
Gzip members: a header, compressed data, and a trailer with the checksum and the length of the
octets. Only the first member of a file counts. A reader receives what can be decompressed, and a
failure after it unless everything is in order.
-/

namespace Pinout.Gzip

/-- The octets up to the first zero are a text, of a limited length; what follows the zero. -/
def afterZero? : Nat → Octets → Option Octets
  | _, [] => none
  | 0, b :: rest => if b = 0 then some rest else none
  | room + 1, b :: rest => if b = 0 then some rest else afterZero? room rest

def longestText : Nat := 65535

def afterExtra? : Octets → Option Octets
  | a :: b :: rest =>
    let n := littleEndian [a, b]
    if n ≤ rest.length then some (rest.drop n) else none
  | _ => none

def optional (flags : UInt8) (flag : UInt8) (skip : Octets → Option Octets) (os : Octets) :
    Option Octets :=
  if flags &&& flag = 0 then some os else skip os

/-- A checksum of the header: the lower half of the one over all that comes before it. -/
def headerCheck? (whole os : Octets) : Option Octets :=
  match os with
  | a :: b :: rest =>
    let before := whole.take (whole.length - os.length)
    if littleEndian [a, b] = (crc32 before).toNat % 65536 then some rest else none
  | _ => none

/-- What follows a header, if it is one. -/
def afterHeader? (os : Octets) : Option Octets :=
  match os with
  | 0x1f :: 0x8b :: 8 :: flags :: _ :: _ :: _ :: _ :: _ :: _ :: rest => do
    guard (flags &&& 0xe0 = 0)
    let rest ← optional flags 4 afterExtra? rest
    let rest ← optional flags 8 (afterZero? longestText) rest
    let rest ← optional flags 16 (afterZero? longestText) rest
    optional flags 2 (headerCheck? os) rest
  | _ => none

def trailerFits (output trailer : Octets) : Bool :=
  trailer.length ≥ 8 && littleEndian (trailer.take 4) == (crc32 output).toNat &&
    littleEndian ((trailer.drop 4).take 4) == output.length % Nat.pow 2 32

def decompress (os : Octets) : Octets.Delivery :=
  match afterHeader? os with
  | none => ⟨[], false⟩
  | some data =>
    match inflate (os.length - data.length) data with
    | (output, .ok trailer) => ⟨output, trailerFits output trailer⟩
    | (output, .error _) => ⟨output, false⟩

end Pinout.Gzip
