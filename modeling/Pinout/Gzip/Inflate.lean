import Pinout.Gzip.Checksum
import Pinout.Gzip.Code

/-!
Decompression of DEFLATE data: blocks that are stored, or coded with a fixed or a transmitted code.
Data are taken in portions, and output is handed on at the end of each portion and where a window
is full and enough waits to fill a reader's buffer. Data that break off still yield all output there
is; corrupt data yield what has been handed on before.
-/

namespace Pinout.Gzip

/-- Bits still to be read: the rest of an octet, least significant first, and the octets after. -/
structure Bits where
  spare : List Bool
  octets : Octets
  /-- How many octets of the file precede `octets` -/
  position : Nat

namespace Bits

def octetBits (b : UInt8) : List Bool := (List.range 8).map fun k => b.toNat.testBit k

def next? (b : Bits) : Option (Bool × Bits) :=
  match b.spare with
  | x :: spare => some (x, ⟨spare, b.octets, b.position⟩)
  | [] =>
    match b.octets with
    | [] => none
    | o :: os => some (o.toNat.testBit 0, ⟨(octetBits o).drop 1, os, b.position + 1⟩)

def count (b : Bits) : Nat := b.spare.length + 8 * b.octets.length

/-- The number of octets that are taken from a file at a time. -/
def portion : Nat := 32768

def portionSpent (b : Bits) : Bool := b.octets.isEmpty || b.position % portion == 0

def atPortion (b : Bits) : Bool := b.spare.isEmpty && b.portionSpent

end Bits

inductive Failure
  /-- The data end before they are complete. -/
  | brokenOff
  | corrupt
  deriving DecidableEq

/-- Decompression: what has been produced so far, how much of it has been handed on, and the bits
not yet read. -/
structure Inflation where
  output : Array UInt8
  delivered : Nat
  bits : Bits

namespace Inflation

def window : Nat := 32768

def buffer : Nat := 8192

def handOn (s : Inflation) : Inflation := { s with delivered := s.output.size }

/-- The next octet opens a new window, and the reader is not kept waiting for more: what there is
fills its buffer, or the portion has been taken in. -/
def windowDue (s : Inflation) : Bool :=
  s.output.size % window == 0 &&
    (s.delivered + buffer ≤ s.output.size || s.bits.portionSpent)

def put (s : Inflation) (o : UInt8) : Inflation :=
  let s := if s.windowDue then s.handOn else s
  { s with output := s.output.push o }

end Inflation

abbrev Inflate := EStateM Failure Inflation

namespace Inflate

def brokenOff : Inflate α := throw .brokenOff

def corrupt : Inflate α := throw .corrupt

def orCorrupt : Option α → Inflate α
  | some a => pure a
  | none => corrupt

def bit : Inflate Bool := do
  if (← get).bits.atPortion then modify Inflation.handOn
  match (← get).bits.next? with
  | none => brokenOff
  | some (x, bits) =>
    modify fun s => { s with bits := bits }
    return x

/-- A number of `n` bits, the least significant first. -/
def number : Nat → Inflate Nat
  | 0 => return 0
  | n + 1 => do
    let low ← bit
    let high ← number n
    return (if low then 1 else 0) + 2 * high

/-- Walks down a code tree bit by bit. Where no code goes on, as many bits are seen as the longest
code may have before the data count as corrupt. -/
def descend : CodeTree → Nat → Inflate Nat
  | .free, room => do
    let _ ← number room
    corrupt
  | .symbol s, _ => return s
  | .node l r, room => do
    if ← bit then descend r (room - 1) else descend l (room - 1)

def symbol (code : CodeTree) : Inflate Nat := descend code CodeTree.longest

def put (o : UInt8) : Inflate Unit := modify (·.put o)

/-- Repeats `n` octets from `distance` back; before the first octet everything counts as zero. -/
def copy (distance : Nat) : Nat → Inflate Unit
  | 0 => return
  | n + 1 => do
    let out := (← get).output
    put (if distance ≤ out.size then out[out.size - distance]?.getD 0 else 0)
    copy distance n

/-- A base value and a number of extra bits for each length symbol, from 257 on. -/
def lengthTable : List (Nat × Nat) :=
  [(3, 0), (4, 0), (5, 0), (6, 0), (7, 0), (8, 0), (9, 0), (10, 0), (11, 1), (13, 1), (15, 1),
    (17, 1), (19, 2), (23, 2), (27, 2), (31, 2), (35, 3), (43, 3), (51, 3), (59, 3), (67, 4),
    (83, 4), (99, 4), (115, 4), (131, 5), (163, 5), (195, 5), (227, 5), (258, 0)]

def distanceTable : List (Nat × Nat) :=
  [(1, 0), (2, 0), (3, 0), (4, 0), (5, 1), (7, 1), (9, 2), (13, 2), (17, 3), (25, 3), (33, 4),
    (49, 4), (65, 5), (97, 5), (129, 6), (193, 6), (257, 7), (385, 7), (513, 8), (769, 8),
    (1025, 9), (1537, 9), (2049, 10), (3073, 10), (4097, 11), (6145, 11), (8193, 12),
    (12289, 12), (16385, 13), (24577, 13)]

def extended (table : List (Nat × Nat)) (s : Nat) : Inflate Nat := do
  let (base, extra) ← orCorrupt table[s]?
  return base + (← number extra)

/-- One step of a coded block; the answer is whether the block goes on. -/
def element (literals distances : CodeTree) : Inflate Bool := do
  let s ← symbol literals
  if s < 256 then
    put s.toUInt8
    return true
  else if s = 256 then return false
  else
    let length ← extended lengthTable (s - 257)
    let distance ← extended distanceTable (← symbol distances)
    copy distance length
    return true

/-- Repeats a step until it answers no. Each step reads a bit at least, so the number of bits
bounds the steps. -/
def whileBits (step : Inflate Bool) : Nat → Inflate Unit
  | 0 => brokenOff
  | n + 1 => do
    if ← step then whileBits step n

def coded (literals distances : CodeTree) : Inflate Unit := do
  whileBits (element literals distances) ((← get).bits.count + 1)

def fixedLengths : List Nat :=
  List.replicate 144 8 ++ List.replicate 112 9 ++ List.replicate 24 7 ++ List.replicate 8 8

/-- The symbols of code lengths in the order in which their own lengths are sent. -/
def sendingOrder : List Nat :=
  [16, 17, 18, 0, 8, 7, 9, 6, 10, 5, 11, 4, 12, 3, 13, 2, 14, 1, 15]

/-- Adds what one symbol of the code lengths stands for to the lengths read so far, which are kept
with the last in front. -/
def addLengths (lengths : List Nat) (s : Nat) : Inflate (List Nat) := do
  if s < 16 then return s :: lengths
  else if s = 16 then
    let last ← orCorrupt lengths.head?
    return List.replicate (3 + (← number 2)) last ++ lengths
  else if s = 17 then return List.replicate (3 + (← number 3)) 0 ++ lengths
  else return List.replicate (11 + (← number 7)) 0 ++ lengths

/-- Reads lengths until there are `wanted` of them; each step adds one at least. -/
def readLengths (code : CodeTree) (wanted : Nat) : Nat → List Nat → Inflate (List Nat)
  | 0, lengths => return lengths
  | n + 1, lengths => do
    if wanted ≤ lengths.length then return lengths
    else readLengths code wanted n (← addLengths lengths (← symbol code))

def sentLengths : List Nat → List (Nat × Nat) → Inflate (List (Nat × Nat))
  | [], sent => return sent
  | s :: ss, sent => do
    let n ← number 3
    sentLengths ss ((s, n) :: sent)

def usable (code : Option CodeTree) : Inflate CodeTree := orCorrupt (code.filter (·.isUsable))

def transmitted : Inflate Unit := do
  let literalCount := 257 + (← number 5)
  let distanceCount := 1 + (← number 5)
  let sentCount := 4 + (← number 4)
  if 286 < literalCount ∨ 30 < distanceCount then corrupt
  let sent ← sentLengths (sendingOrder.take sentCount) []
  let sentLength (s : Nat) : Nat := (sent.lookup s).getD 0
  let code ← orCorrupt <|
    (CodeTree.ofLengths? ((List.range 19).map sentLength)).filter (·.isComplete)
  let total := literalCount + distanceCount
  let lengths := (← readLengths code total total []).reverse
  if lengths.length ≠ total then corrupt
  let literals ← usable (CodeTree.ofLengths? (lengths.take literalCount))
  let distances ← usable (CodeTree.ofLengths? (lengths.drop literalCount))
  coded literals distances

def octet : Inflate UInt8 := do return (← number 8).toUInt8

def octets : Nat → Inflate Unit
  | 0 => return
  | n + 1 => do
    put (← octet)
    octets n

/-- A stored block starts at an octet, with its length and the complement of its length. -/
def stored : Inflate Unit := do
  modify fun s => { s with bits := { s.bits with spare := [] } }
  let length ← number 16
  let complement ← number 16
  if length + complement ≠ 0xffff then corrupt
  octets length

/-- The answer is whether another block follows. -/
def block : Inflate Bool := do
  let last ← bit
  match ← number 2 with
  | 0 => stored
  | 1 =>
    let literals ← orCorrupt (CodeTree.ofLengths? fixedLengths)
    let distances ← orCorrupt (CodeTree.ofLengths? (List.replicate 32 5))
    coded literals distances
  | 2 => transmitted
  | _ => corrupt
  return !last

def blocks : Inflate Unit := do whileBits block ((← get).bits.count + 1)

end Inflate

/-- The octets that compressed data yield, and what follows the data or how they fail. The data
start at a position in a file. -/
def inflate (position : Nat) (os : Octets) : Octets × Except Failure Octets :=
  match Inflate.blocks.run ⟨#[], 0, ⟨[], os, position⟩⟩ with
  | .ok _ s => (s.output.toList, .ok s.bits.octets)
  | .error .brokenOff s => (s.output.toList, .error .brokenOff)
  | .error .corrupt s => (s.output.toList.take s.delivered, .error .corrupt)

end Pinout.Gzip
