/-!
The nine grammars of an index specifier. An explicit specifier lists its indices on its own;
an implicit one takes them, or their number, from the other side of its line.
-/

namespace Pinout

inductive Family
  | explicit
  | implicit
  deriving DecidableEq

inductive Grammar
  /-- `n1,n2,...,nk` -/
  | list
  /-- `a..b`, downwards when `b` is smaller -/
  | range
  /-- `start:step..end` -/
  | strideTo
  /-- `start:step:last`, where `last` numbers the last term from zero -/
  | stride
  /-- `..`, the sibling's own indices -/
  | reuse
  /-- `offset..`, the sibling's indices, each raised by `offset` -/
  | shift
  /-- `start..#`, upwards, as many as the sibling has -/
  | countUp
  /-- `#..end`, downwards, as many as the sibling has -/
  | countDown
  /-- `start:step:#`, as many terms as the sibling has -/
  | strideAlong
  deriving DecidableEq

namespace Grammar

/-- Every grammar, in the order in which they are tried. -/
def all : List Grammar :=
  [list, range, strideTo, stride, reuse, shift, countUp, countDown, strideAlong]

theorem mem_all (g : Grammar) : g ∈ all := by
  cases g <;> decide

def name : Grammar → String
  | list => "simpleExplicit"
  | range => "simpleRange"
  | strideTo => "stepToEnd"
  | stride => "stepRange"
  | reuse => "rangeReuse"
  | shift => "offsetRangeReuse"
  | countUp => "lengthForward"
  | countDown => "lengthBackward"
  | strideAlong => "stepRangeLengthReuse"

def family : Grammar → Family
  | list | range | strideTo | stride => .explicit
  | reuse | shift | countUp | countDown | strideAlong => .implicit

def ofName? (s : String) : Option Grammar := all.find? fun g => g.name = s

end Grammar

end Pinout
