import Pinout.Yaml.Source

/-!
Scalars: plain and quoted ones, which are folded when they run over several lines, and blocks of
indented lines. Each reader goes through the characters once and gives the text and the remainder.
-/

namespace Pinout.Yaml

/-- White space since the last visible character of a scalar. -/
structure Folding where
  blanks : List Char
  firstBreak : List Char
  laterBreaks : List Char
  /-- A line break has been passed. -/
  broken : Bool

namespace Folding

def none : Folding := ⟨[], [], [], false⟩

/-- An escaped line break leaves nothing of itself. -/
def escapedBreak : Folding := ⟨[], [], [], true⟩

def isNone (f : Folding) : Bool := f.blanks.isEmpty && !f.broken

def addBlank (f : Folding) (c : Char) : Folding :=
  if f.broken then f else { f with blanks := f.blanks ++ [c] }

def addBreak (f : Folding) (c : Char) : Folding :=
  if f.broken then { f with laterBreaks := f.laterBreaks ++ [c] } else ⟨[], [c], [], true⟩

/-- What the white space comes to: one line feed is a space, and before others it is dropped. -/
def text (f : Folding) : List Char :=
  if !f.broken then f.blanks
  else if f.firstBreak ≠ ['\n'] then f.firstBreak ++ f.laterBreaks
  else if f.laterBreaks.isEmpty then [' ']
  else f.laterBreaks

end Folding

structure Scalar where
  text : List Char
  rest : Rest

/-- A plain scalar ends before a comment, a mapping value, a less indented line and a marker. In
flow style it also ends before the flow indicators. The answer tells, too, whether a line break
came last. -/
def plain (inFlow : Bool) (indent : Nat) (read : List Char) (f : Folding) (m : Mark) :
    List Char → Option (Scalar × Bool)
  | [] => some (⟨read.reverse, m, []⟩, f.broken)
  | c :: cs =>
    if isBreak c then plain inFlow indent read (f.addBreak c) m.newLine cs
    else if isBlank c then
      if f.broken ∧ m.column < indent ∧ c = '\t' then none
      else plain inFlow indent read (f.addBlank c) (m.past c) cs
    else
      let leaves := !f.isNone && ((!inFlow && m.column < indent) || c = '#' ||
        (m.column = 0 && atMarker (c :: cs)))
      let ends := (c = ':' && gapNext cs) || (inFlow && [',', '[', ']', '{', '}'].contains c)
      if leaves then some (⟨read.reverse, m, c :: cs⟩, f.broken)
      else if inFlow && c = ':' && (cs.head?.any [',', '?', '[', ']', '{', '}'].contains) then none
      else if ends then some (⟨read.reverse, m, c :: cs⟩, f.broken)
      else plain inFlow indent (c :: (f.text.reverse ++ read)) .none (m.past c) cs

namespace Quoted

inductive Mode
  | inside
  /-- After a single quote, which is doubled inside the scalar -/
  | afterQuote
  | escape
  /-- In the digits of a character code, with as many to come -/
  | code (left value : Nat)

def simpleEscape? : Char → Option Char
  | '0' => some '\x00'
  | 'a' => some '\x07'
  | 'b' => some '\x08'
  | 't' | '\t' => some '\t'
  | 'n' => some '\n'
  | 'v' => some '\x0b'
  | 'f' => some '\x0c'
  | 'r' => some '\r'
  | 'e' => some '\x1b'
  | ' ' => some ' '
  | '"' => some '"'
  | '/' => some '/'
  | '\\' => some '\\'
  | 'N' => some '\x85'
  | '_' => some '\xa0'
  | 'L' => some '\u2028'
  | 'P' => some '\u2029'
  | _ => none

def codeLength? : Char → Option Nat
  | 'x' => some 2
  | 'u' => some 4
  | 'U' => some 8
  | _ => none

end Quoted

/-- A quoted scalar, after its opening quote; only double quotes know escapes. -/
def quoted (double : Bool) (mode : Quoted.Mode) (read : List Char) (f : Folding) (m : Mark) :
    List Char → Option Scalar
  | [] =>
    match mode with
    | .afterQuote => some ⟨read.reverse, m, []⟩
    | _ => none
  | c :: cs =>
    match mode with
    | .afterQuote =>
      if c = '\'' then quoted double .inside (c :: read) .none (m.past c) cs
      else some ⟨read.reverse, m, c :: cs⟩
    | .escape =>
      if isBreak c then quoted double .inside read .escapedBreak m.newLine cs
      else match Quoted.simpleEscape? c, Quoted.codeLength? c with
        | some d, _ => quoted double .inside (d :: read) .none (m.past c) cs
        | none, some n => quoted double (.code n 0) read .none (m.past c) cs
        | none, none => none
    | .code left value =>
      match hexValue? c with
      | none => none
      | some d =>
        let value := 16 * value + d
        if left ≠ 1 then quoted double (.code (left - 1) value) read .none (m.past c) cs
        else if value.isValidChar then
          quoted double .inside (Char.ofNat value :: read) .none (m.past c) cs
        else none
    | .inside =>
      if isBreak c then quoted double .inside read (f.addBreak c) m.newLine cs
      else if isBlank c then quoted double .inside read (f.addBlank c) (m.past c) cs
      else if m.column = 0 ∧ atMarker (c :: cs) then none
      else
        let read := f.text.reverse ++ read
        if double ∧ c = '"' then some ⟨read.reverse, m.past c, cs⟩
        else if double ∧ c = '\\' then quoted double .escape read .none (m.past c) cs
        else if !double ∧ c = '\'' then quoted double .afterQuote read .none (m.past c) cs
        else quoted double .inside (c :: read) .none (m.past c) cs

namespace Block

inductive Chomping
  | strip
  | clip
  | keep
  deriving DecidableEq

def chomping? : Char → Option Chomping
  | '+' => some .keep
  | '-' => some .strip
  | _ => none

/-- The signs after the indicator: chomping and the number of columns, in any order. -/
def header (cs : List Char) : Option (Chomping × Nat × List Char) :=
  let chomp (cs : List Char) : Chomping × List Char :=
    match cs with
    | c :: rest => ((chomping? c).map (·, rest)).getD (.clip, cs)
    | [] => (.clip, [])
  let digit (cs : List Char) : Nat × List Char :=
    match cs with
    | c :: rest => if c.isDigit then (c.toNat - '0'.toNat, rest) else (0, cs)
    | [] => (0, [])
  let (first, afterFirst) := chomp cs
  let (n, afterDigit) := digit afterFirst
  let zero := afterFirst.head? = some '0'
  let (c, rest) := if first ≠ .clip then (first, afterDigit)
    else if n = 0 then (.clip, afterDigit) else chomp afterDigit
  if zero then none else some (c, n, rest)

structure State where
  /-- The text so far, the last character in front -/
  read : List Char
  lineBreak : List Char
  emptyLines : List Char
  /-- The last line started with white space. -/
  wasBlank : Bool
  /-- The indentation, or zero as long as it is not known -/
  indent : Nat
  widest : Nat
  inLine : Bool

def State.finish (s : State) (chomping : Chomping) (m : Mark) (cs : List Char) : Scalar :=
  let tail := match chomping with
    | .strip => []
    | .clip => s.lineBreak
    | .keep => s.lineBreak ++ s.emptyLines
  ⟨s.read.reverse ++ tail, m, cs⟩

/-- The break before a line that starts with `c`: folding makes a space of it between two lines
that are not indented further. -/
def State.joint (s : State) (literal : Bool) (c : Char) : List Char :=
  if !literal && s.lineBreak = ['\n'] && !s.wasBlank && !isBlank c then
    if s.emptyLines.isEmpty then [' '] else s.emptyLines
  else s.lineBreak ++ s.emptyLines

/-- The lines of a block; `level` is the least indentation that they can have. -/
def lines (literal : Bool) (level : Nat) (chomping : Chomping) (s : State) (m : Mark) :
    List Char → Option Scalar
  | [] => some (s.finish chomping m [])
  | c :: cs =>
    let outside := s.indent = 0 ∨ m.column < s.indent
    if s.inLine then
      if isBreak c then
        lines literal level chomping { s with lineBreak := [c], inLine := false } m.newLine cs
      else lines literal level chomping { s with read := c :: s.read } (m.past c) cs
    else if c = ' ' ∧ outside then lines literal level chomping s (m.past c) cs
    else if c = '\t' ∧ outside then none
    else if isBreak c then
      lines literal level chomping
        { s with emptyLines := s.emptyLines ++ [c], widest := max s.widest m.column } m.newLine cs
    else
      let indent := if s.indent = 0 then max (max s.widest m.column) (max level 1) else s.indent
      if m.column = indent then
        let read := c :: ((s.joint literal c).reverse ++ s.read)
        lines literal level chomping ⟨read, [], [], isBlank c, indent, s.widest, true⟩ (m.past c) cs
      else some (s.finish chomping m (c :: cs))

def scalar (literal : Bool) (level : Nat) (r : Rest) : Option Scalar := do
  let (chomping, n, cs) ← header r.chars
  let cs := cs.dropWhile isBlank
  let cs := if cs.head? = some '#' then cs.dropWhile (!isBreak ·) else cs
  guard (lineEnds cs)
  let indent := if n = 0 then 0 else (level - 1) + n
  let m := if cs.isEmpty then (r.toward cs).mark else r.mark.newLine
  lines literal level chomping ⟨[], [], [], false, indent, 0, false⟩ m (cs.drop 1)

end Block

end Pinout.Yaml
