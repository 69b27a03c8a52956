import Pinout.Index
import Pinout.Specifier.Error

/-!
The indices that a grammar yields for its numerals and, if it is implicit, for the indices of
its sibling. Every term is computed in checked arithmetic; the first that does not fit is an
error of the whole specifier.
-/

namespace Pinout

namespace Index

/-- From one index to another, both included, downwards when the second is smaller. -/
def between (a b : Index) : List Index :=
  if a ≤ b then (List.range (b.toNat - a.toNat + 1)).map fun k => a + UInt64.ofNat k
  else (List.range (a.toNat - b.toNat + 1)).map fun k => a - UInt64.ofNat k

/-- `first`, then every `step` further, as long as `last` is not passed; with a zero step,
`first` alone. -/
def climb (first step last : Index) : List Index :=
  match first.add? step with
  | none => [first]
  | some next =>
    if first < next ∧ next ≤ last then first :: climb next step last else [first]
termination_by last.toNat - first.toNat
decreasing_by
  rename_i hn
  have h1 := UInt64.lt_iff_toNat_lt.mp hn.1
  have h2 := UInt64.le_iff_toNat_le.mp hn.2
  omega

def ascending (start step : Index) (k : Nat) : Option Index :=
  (step.mul? (UInt64.ofNat k)).bind start.add?

def descending (start step : Index) (k : Nat) : Option Index :=
  (step.mul? (UInt64.ofNat k)).bind start.sub?

/-- The `n` terms from the `k`-th on, or nothing if one of them is absent. -/
def terms (term : Nat → Option Index) (k : Nat) : Nat → Option (List Index)
  | 0 => some []
  | n + 1 =>
    match term k with
    | none => none
    | some i => (terms term (k + 1) n).map (i :: ·)

end Index

namespace Grammar

/-- The values of the numerals, in order; the first that is too large is reported. -/
def readIndices : List String → Except ResolveError (List Index)
  | [] => .ok []
  | c :: cs =>
    match Index.ofText? c with
    | none => .error (.numberOutOfRange c)
    | some i => (readIndices cs).map (i :: ·)

/-- Terms that do not all fit are an error of the grammar. -/
def inRange (g : Grammar) : Option (List Index) → Except ResolveError (List Index)
  | some content => .ok content
  | none => .error (.indexOutOfRange g)

/-- `args` are the values of the numerals; a missing one counts as zero. -/
def indices (g : Grammar) (args : List Index) (sibling : Option (List Index)) :
    Except ResolveError (List Index) :=
  let a := args.getD 0 0
  let b := args.getD 1 0
  let c := args.getD 2 0
  match g, sibling with
  | list, _ => .ok args
  | range, _ => .ok (Index.between a b)
  | strideTo, _ =>
    if c < a then .ok []
    else if b = 0 then .error (.zeroStep strideTo)
    else .ok (Index.climb a b c)
  | stride, _ =>
    inRange stride ((c.add? 1).bind fun n => Index.terms (Index.ascending a b) 0 n.toNat)
  | reuse, some base => .ok base
  | shift, some base => inRange shift (base.mapM fun i => i.add? a)
  | countUp, some base => inRange countUp (Index.terms (Index.ascending a 1) 0 base.length)
  | countDown, some base => inRange countDown (Index.terms (Index.descending a 1) 0 base.length)
  | strideAlong, some base =>
    inRange strideAlong (Index.terms (Index.ascending a b) 0 base.length)
  | g, none => .error (.missingSibling g)

/-- The content of a specifier from its captured numerals, all of which are read first. -/
def expand (g : Grammar) (captures : List String) (sibling : Option (List Index)) :
    Except ResolveError (List Index) :=
  match readIndices captures with
  | .error e => .error e
  | .ok args => g.indices args sibling

end Grammar

end Pinout
