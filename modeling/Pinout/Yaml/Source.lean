/-!
The characters of a YAML text and the places where they stand.
-/

namespace Pinout.Yaml

/-- Carriage returns and the next-line character count as line feeds; a carriage return and the
line feed after it are one. -/
def unifyBreaks : List Char → List Char
  | [] => []
  | '\r' :: '\n' :: cs => '\n' :: unifyBreaks cs
  | c :: cs => (if c = '\r' ∨ c = '\x85' then '\n' else c) :: unifyBreaks cs

def isAllowed (c : Char) : Bool :=
  let n := c.toNat
  n = 0x9 || n = 0xa || n = 0xd || 0x20 ≤ n && n ≤ 0x7e || n = 0x85 || 0xa0 ≤ n && n ≤ 0xd7ff ||
    0xe000 ≤ n && n ≤ 0xfffd || 0x10000 ≤ n

/-- A line break, after breaks have been unified. -/
def isBreak (c : Char) : Bool := c = '\n' || c = '\u2028' || c = '\u2029'

def isBlank (c : Char) : Bool := c = ' ' || c = '\t'

def gapNext : List Char → Bool
  | [] => true
  | c :: _ => isBlank c || isBreak c

def lineEnds : List Char → Bool
  | [] => true
  | c :: _ => isBreak c

/-- The marker between documents, or the one at the end of a document. -/
def isMarker (c : Char) : List Char → Bool
  | a :: b :: d :: rest => a = c && b = c && d = c && gapNext rest
  | _ => false

def atMarker (cs : List Char) : Bool := isMarker '-' cs || isMarker '.' cs

/-- Characters of directive names, anchors and tag handles. -/
def isNameChar (c : Char) : Bool := c.isAlphanum || c = '_' || c = '-'

def hexValue? (c : Char) : Option Nat :=
  if '0' ≤ c ∧ c ≤ '9' then some (c.toNat - '0'.toNat)
  else if 'a' ≤ c ∧ c ≤ 'f' then some (c.toNat - 'a'.toNat + 10)
  else if 'A' ≤ c ∧ c ≤ 'F' then some (c.toNat - 'A'.toNat + 10)
  else none

structure Mark where
  line : Nat
  column : Nat
  /-- The octets before it in its line -/
  octets : Nat
  deriving DecidableEq

namespace Mark

def start : Mark := ⟨0, 0, 0⟩

def past (m : Mark) (c : Char) : Mark := ⟨m.line, m.column + 1, m.octets + c.utf8Size⟩

def pastAll (m : Mark) (cs : List Char) : Mark := cs.foldl past m

def newLine (m : Mark) : Mark := ⟨m.line + 1, 0, 0⟩

end Mark

structure Rest where
  mark : Mark
  chars : List Char

/-- Goes on to a remainder further right in the same line. -/
def Rest.toward (r : Rest) (chars : List Char) : Rest :=
  ⟨r.mark.pastAll (r.chars.take (r.chars.length - chars.length)), chars⟩

end Pinout.Yaml
