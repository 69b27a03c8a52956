import Pinout.Yaml.Source

/-!
Names in YAML: directives, anchors and tags. Of a tag only its handle matters, which has to be
known where the tag is used.
-/

namespace Pinout.Yaml

def anchorName? (cs : List Char) : Option (List Char × List Char) :=
  let name := cs.takeWhile isNameChar
  let rest := cs.dropWhile isNameChar
  let closes := gapNext rest ||
    rest.head?.any ['?', ':', ',', ']', '}', '%', '@', '\x60'].contains
  if name.isEmpty || !closes then none else some (name, rest)

namespace Tag

def isUriChar (inBrackets : Bool) (c : Char) : Bool :=
  isNameChar c || [';', '/', '?', ':', '@', '&', '=', '+', '$', '.', '%', '!', '~', '*', '\'',
    '(', ')'].contains c || (inBrackets && [',', '[', ']'].contains c)

/-- How many octets follow the first one of a character in UTF-8. -/
def followers? (octet : Nat) : Option Nat :=
  if octet < 0x80 then some 0
  else if octet / 32 = 6 then some 1
  else if octet / 16 = 14 then some 2
  else if octet / 8 = 30 then some 3
  else none

/-- What follows a URI; `owed` octets of an escaped character are still to come. -/
def afterUri? (inBrackets : Bool) (owed : Nat) : List Char → Option (List Char)
  | [] => if owed = 0 then some [] else none
  | '%' :: cs =>
    match cs with
    | a :: b :: rest =>
      match hexValue? a, hexValue? b with
      | some x, some y =>
        let octet := 16 * x + y
        if owed = 0 then
          match followers? octet with
          | some n => afterUri? inBrackets n rest
          | none => none
        else if octet / 64 = 2 then afterUri? inBrackets (owed - 1) rest
        else none
      | _, _ => none
    | _ => none
  | c :: cs =>
    if owed ≠ 0 then none
    else if isUriChar inBrackets c then afterUri? inBrackets 0 cs
    else some (c :: cs)

def afterSomeUri? (inBrackets : Bool) (cs : List Char) : Option (List Char) := do
  let rest ← afterUri? inBrackets 0 cs
  guard (rest.length < cs.length)
  return rest

/-- A handle with both exclamation marks, or what there is of one. -/
def handle (cs : List Char) : List Char × List Char :=
  let name := (cs.drop 1).takeWhile isNameChar
  match (cs.drop 1).dropWhile isNameChar with
  | '!' :: rest => ('!' :: name ++ ['!'], rest)
  | rest => ('!' :: name, rest)

/-- A tag from its exclamation mark on: its handle, unless the tag is written out in full. -/
def read? (inFlow : Bool) (cs : List Char) : Option (Option (List Char) × List Char) := do
  let (used, rest) ←
    match cs with
    | '!' :: '<' :: inner => do
      match ← afterSomeUri? true inner with
      | '>' :: rest => pure (none, rest)
      | _ => none
    | _ =>
      let (h, rest) := handle cs
      if 1 < h.length ∧ h.getLast? = some '!' then do
        pure (some h, ← afterSomeUri? false rest)
      else do pure (some ['!'], ← afterUri? false 0 rest)
  guard (gapNext rest || (inFlow && rest.head? = some ','))
  return (used, rest)

end Tag

/-- A directive either states the version or declares a tag handle. -/
inductive Directive
  | version
  | tag (handle : List Char)
  deriving DecidableEq

namespace Directive

def number? (cs : List Char) : Option (Nat × List Char) :=
  let digits := cs.takeWhile Char.isDigit
  if digits.isEmpty ∨ 9 < digits.length then none
  else some (Nat.ofDigitChars 10 digits 0, cs.dropWhile Char.isDigit)

/-- Versions 1.1 and 1.2 are known. -/
def version? (cs : List Char) : Option (List Char) := do
  let (major, rest) ← number? cs
  guard (rest.head? = some '.')
  let (minor, rest) ← number? (rest.drop 1)
  guard (major = 1 ∧ (minor = 1 ∨ minor = 2))
  return rest

def tag? (cs : List Char) : Option (List Char × List Char) := do
  guard (cs.head? = some '!')
  let (h, rest) := Tag.handle cs
  guard (h = ['!'] ∨ (1 < h.length ∧ h.getLast? = some '!'))
  guard (rest.head?.any isBlank)
  let rest ← Tag.afterSomeUri? true (rest.dropWhile isBlank)
  guard (gapNext rest)
  return (h, rest)

/-- A directive after its percent sign, and what follows its line. -/
def read? (cs : List Char) : Option (Directive × List Char) := do
  let name := cs.takeWhile isNameChar
  let rest := cs.dropWhile isNameChar
  guard (gapNext rest)
  let value := rest.dropWhile isBlank
  let (d, rest) ←
    if name = ['Y', 'A', 'M', 'L'] then do pure (Directive.version, ← version? value)
    else if name = ['T', 'A', 'G'] then do
      let (h, rest) ← tag? value
      pure (.tag h, rest)
    else none
  let rest := rest.dropWhile isBlank
  let rest := if rest.head? = some '#' then rest.dropWhile (!isBreak ·) else rest
  guard (lineEnds rest)
  return (d, rest)

end Directive

end Pinout.Yaml
