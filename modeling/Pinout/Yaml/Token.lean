import Pinout.Yaml.Scalar
import Pinout.Yaml.Tag

/-!
Tokens of a YAML text. Whether a scalar is a key shows only at the colon after it, so a token that
may start a key is remembered, and the key token is put before it afterwards. Sequences have no
place in a table; a text with one has no tokens here.
-/

namespace Pinout.Yaml

inductive Token
  | directive (d : Directive)
  | documentStart
  | documentEnd
  | blockStart
  | blockEnd
  | flowStart
  | flowEnd
  | comma
  | key
  | value
  | anchor (name : List Char)
  | alias (name : List Char)
  | tag (handle : Option (List Char))
  | scalar (text : List Char)
  deriving DecidableEq

/-- A place where a key may have started. In a block a key is due at the indentation itself. -/
structure PossibleKey where
  isDue : Bool
  /-- The number of tokens before it -/
  position : Nat
  mark : Mark

structure Scanner where
  rest : Rest
  tokens : Array Token
  inFlow : Bool
  /-- One more than the column of the mapping at hand, or zero outside of any -/
  level : Nat
  outerLevels : List Nat
  possibleKey : Option PossibleKey
  keyAllowed : Bool

namespace Scanner

def start (cs : List Char) : Scanner := ⟨⟨.start, cs⟩, #[], false, 0, [], none, true⟩

/-- Skips white space and comments. Tabs may separate tokens, but not indent them. -/
def skip (inFlow : Bool) (inComment keyAllowed : Bool) (m : Mark) : List Char → Bool × Rest
  | [] => (keyAllowed, ⟨m, []⟩)
  | c :: cs =>
    if isBreak c then skip inFlow false (keyAllowed || !inFlow) m.newLine cs
    else if inComment || c = ' ' || (c = '\t' && (inFlow || !keyAllowed)) ||
        (c = '\ufeff' && m.column = 0) then
      skip inFlow inComment keyAllowed (m.past c) cs
    else if c = '#' then skip inFlow true keyAllowed (m.past c) cs
    else (keyAllowed, ⟨m, c :: cs⟩)

def emit (s : Scanner) (t : Token) : Scanner := { s with tokens := s.tokens.push t }

def insert (s : Scanner) (position : Nat) (t : Token) : Scanner :=
  { s with tokens := s.tokens.take position ++ #[t] ++ s.tokens.drop position }

/-- Gives up a possible key, which must not be due. -/
def forgetKey (s : Scanner) : Option Scanner :=
  if s.possibleKey.any (·.isDue) then none else some { s with possibleKey := none }

/-- A key lies in one line and is 1024 octets long at most. -/
def forgetStaleKey (s : Scanner) : Option Scanner :=
  let now := s.rest.mark
  if s.possibleKey.any fun k => k.mark.line < now.line || k.mark.octets + 1024 < now.octets then
    s.forgetKey
  else some s

def saveKey (s : Scanner) : Option Scanner :=
  if s.keyAllowed then do
    let s ← s.forgetKey
    let isDue := !s.inFlow && s.level = s.rest.mark.column + 1
    return { s with possibleKey := some ⟨isDue, s.tokens.size, s.rest.mark⟩ }
  else some s

/-- Starts a mapping before the given position if the column is further in than the last one. -/
def indent (s : Scanner) (column position : Nat) : Scanner :=
  if !s.inFlow && s.level ≤ column then
    let levels := s.level :: s.outerLevels
    { s.insert position .blockStart with level := column + 1, outerLevels := levels }
  else s

/-- Ends mappings until one at the level or further out is at hand. -/
def dedentFrom (level : Nat) (current : Nat) (tokens : Array Token) :
    List Nat → Nat × List Nat × Array Token
  | [] => (current, [], tokens)
  | outer :: levels =>
    if current ≤ level then (current, outer :: levels, tokens)
    else dedentFrom level outer (tokens.push .blockEnd) levels

def dedent (s : Scanner) (level : Nat) : Scanner :=
  if s.inFlow then s
  else
    let (l, levels, tokens) := dedentFrom level s.level s.tokens s.outerLevels
    { s with level := l, outerLevels := levels, tokens := tokens }

def goTo (s : Scanner) (r : Rest) : Scanner := { s with rest := r }

def behind (s : Scanner) (n : Nat) : Scanner :=
  s.goTo ⟨s.rest.mark.pastAll (s.rest.chars.take n), s.rest.chars.drop n⟩

def allowKey (s : Scanner) (allowed : Bool) : Scanner := { s with keyAllowed := allowed }

def marker (s : Scanner) (t : Token) : Option Scanner := do
  let s ← (s.dedent 0).forgetKey
  return ((s.allowKey false).behind 3).emit t

def directive (s : Scanner) : Option Scanner := do
  let s ← (s.dedent 0).forgetKey
  let (d, cs) ← Directive.read? (s.rest.chars.drop 1)
  return ((s.allowKey false).emit (.directive d)).goTo (s.rest.toward cs)

/-- A mapping between braces stands for itself, never inside another. -/
def openFlow (s : Scanner) : Option Scanner := do
  guard (!s.inFlow && s.level = 0)
  let s := (s.behind 1).emit .flowStart
  return { s with inFlow := true, possibleKey := none, keyAllowed := true }

def closeFlow (s : Scanner) : Option Scanner := do
  guard s.inFlow
  let s := (s.behind 1).emit .flowEnd
  return { s with inFlow := false, possibleKey := none, keyAllowed := false }

def comma (s : Scanner) : Option Scanner := do
  guard s.inFlow
  return { (s.behind 1).emit .comma with possibleKey := none, keyAllowed := true }

def explicitKey (s : Scanner) : Option Scanner := do
  guard (s.inFlow || s.keyAllowed)
  let s ← (s.indent s.rest.mark.column s.tokens.size).forgetKey
  return ((s.allowKey !s.inFlow).behind 1).emit .key

def value (s : Scanner) : Option Scanner :=
  match s.possibleKey with
  | some k =>
    let s := (s.insert k.position .key).indent k.mark.column k.position
    some ((({ s with possibleKey := none }.allowKey false).behind 1).emit .value)
  | none => do
    guard (s.inFlow || s.keyAllowed)
    let s := s.indent s.rest.mark.column s.tokens.size
    return ((s.allowKey !s.inFlow).behind 1).emit .value

def anchor (s : Scanner) (token : List Char → Token) : Option Scanner := do
  let s ← s.saveKey
  let (name, cs) ← anchorName? (s.rest.chars.drop 1)
  return ((s.allowKey false).emit (token name)).goTo (s.rest.toward cs)

def tag (s : Scanner) : Option Scanner := do
  let s ← s.saveKey
  let (h, cs) ← Tag.read? s.inFlow s.rest.chars
  return ((s.allowKey false).emit (.tag h)).goTo (s.rest.toward cs)

def block (s : Scanner) (literal : Bool) : Option Scanner := do
  guard !s.inFlow
  let s ← s.forgetKey
  let t ← Block.scalar literal s.level (s.behind 1).rest
  return ((s.allowKey true).emit (.scalar t.text)).goTo t.rest

def quotedScalar (s : Scanner) (double : Bool) : Option Scanner := do
  let s ← s.saveKey
  let r := (s.behind 1).rest
  let t ← quoted double .inside [] .none r.mark r.chars
  return ((s.allowKey false).emit (.scalar t.text)).goTo t.rest

/-- A plain scalar that ends after a line break leaves the start of a line behind it. -/
def plainScalar (s : Scanner) : Option Scanner := do
  let s ← s.saveKey
  let (t, broken) ← plain s.inFlow s.level [] .none s.rest.mark s.rest.chars
  return ((s.allowKey broken).emit (.scalar t.text)).goTo t.rest

def startsPlain (inFlow : Bool) (c : Char) (cs : List Char) : Bool :=
  if c = '-' then !gapNext cs
  else if c = '?' ∨ c = ':' then !inFlow && !gapNext cs
  else !([',', '[', ']', '{', '}', '#', '&', '*', '!', '|', '>', '\'', '"', '%', '@',
    '\x60', '\t'].contains c)

def token (s : Scanner) (c : Char) (cs : List Char) : Option Scanner :=
  let column := s.rest.mark.column
  if column = 0 ∧ c = '%' then s.directive
  else if column = 0 ∧ isMarker '-' (c :: cs) then s.marker .documentStart
  else if column = 0 ∧ isMarker '.' (c :: cs) then s.marker .documentEnd
  else if c = '{' then s.openFlow
  else if c = '}' then s.closeFlow
  else if c = ',' then s.comma
  else if c = '?' ∧ (s.inFlow ∨ gapNext cs) then s.explicitKey
  else if c = ':' ∧ (s.inFlow ∨ gapNext cs) then s.value
  else if c = '*' then s.anchor .alias
  else if c = '&' then s.anchor .anchor
  else if c = '!' then s.tag
  else if c = '|' then s.block true
  else if c = '>' then s.block false
  else if c = '\'' then s.quotedScalar false
  else if c = '"' then s.quotedScalar true
  else if startsPlain s.inFlow c cs then s.plainScalar
  else none

/-- Skips to the next token, which ends the mappings that it is not indented for. -/
def advance (s : Scanner) : Option Scanner := do
  let (allowed, rest) := skip s.inFlow false s.keyAllowed s.rest.mark s.rest.chars
  let s ← ((s.allowKey allowed).goTo rest).forgetStaleKey
  return s.dedent (s.rest.mark.column + 1)

/-- Reads token after token. Each takes a character at least, so `n` may be one more than there
are characters. -/
def run : Nat → Scanner → Option (List Token)
  | 0, _ => none
  | n + 1, s => do
    let s ← s.advance
    match s.rest.chars with
    | [] => return (← (s.dedent 0).forgetKey).tokens.toList
    | c :: cs => run n (← s.token c cs)

end Scanner

/-- The tokens of a text without sequences, if it can be read. -/
def tokens? (cs : List Char) : Option (List Token) :=
  if cs.all isAllowed then
    let cs := unifyBreaks cs
    Scanner.run (cs.length + 1) (.start cs)
  else none

end Pinout.Yaml
