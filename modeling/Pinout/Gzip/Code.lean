/-!
Canonical codes. The symbols take their places in a binary tree in the order of their code lengths,
and of their values where the lengths are equal: each the leftmost place that is free at its depth.
-/

namespace Pinout.Gzip

inductive CodeTree
  | free
  | symbol (s : Nat)
  | node (zero one : CodeTree)

namespace CodeTree

/-- Puts a symbol at the leftmost free place of a depth, if there is one. -/
def place (s : Nat) : Nat → CodeTree → Option CodeTree
  | 0, .free => some (.symbol s)
  | 0, _ => none
  | _ + 1, .symbol _ => none
  | d + 1, .free => (place s d .free).map (.node · .free)
  | d + 1, .node l r =>
    match place s d l with
    | some l => some (.node l r)
    | none => (place s d r).map (.node l ·)

def isComplete : CodeTree → Bool
  | .free => false
  | .symbol _ => true
  | .node l r => l.isComplete && r.isComplete

def symbolsOf (lengths : List Nat) (n : Nat) : List Nat :=
  (List.range lengths.length).filter fun s => lengths.getD s 0 = n

def placeAll (lengths : List Nat) : List Nat → CodeTree → Option CodeTree
  | [], t => some t
  | n :: ns, t =>
    match (symbolsOf lengths n).foldlM (fun t s => place s n t) t with
    | some t => placeAll lengths ns t
    | none => none

def longest : Nat := 15

/-- The code with the given lengths, from symbol 0 on; symbols of length 0 do not occur. -/
def ofLengths? (lengths : List Nat) : Option CodeTree :=
  placeAll lengths ((List.range longest).map (· + 1)) .free

/-- Besides the complete codes there are the one without symbols and those with a single symbol,
which is one bit long. -/
def isUsable : CodeTree → Bool
  | .free => true
  | .node (.symbol _) .free => true
  | t => t.isComplete

end CodeTree

end Pinout.Gzip
