import Pinout.Text.Blank

/-!
The shapes that are looked for in a line. Each shape is read from a fixed place in one way at
most, and a search takes the first place where it can be read. Names consist of the letters
`A`-`Z`, `a`-`z`, digits and underscores.
-/

namespace Pinout.Pattern

open Text (isSpace)

def isWord (c : Char) : Bool := c.isAlphanum || c == '_'

/-- As many characters of one class as there are, one at least. -/
def run (p : Char → Bool) (cs : List Char) : Option (List Char × List Char) :=
  if (cs.takeWhile p).isEmpty then none else some (cs.takeWhile p, cs.dropWhile p)

def mark (c : Char) : List Char → Option (List Char)
  | d :: rest => if d = c then some rest else none
  | [] => none

theorem run_eq_some_iff {p : Char → Bool} {cs a rest : List Char} :
    run p cs = some (a, rest) ↔ a ≠ [] ∧ cs.takeWhile p = a ∧ cs.dropWhile p = rest := by
  unfold run
  split
  · next h =>
    rw [List.isEmpty_iff] at h
    simp only [reduceCtorEq, false_iff, not_and]
    rintro ha rfl
    exact absurd h ha
  · next h =>
    rw [List.isEmpty_iff] at h
    simp only [Option.some.injEq, Prod.mk.injEq]
    constructor
    · rintro ⟨rfl, rfl⟩
      exact ⟨h, rfl, rfl⟩
    · rintro ⟨_, ha, hr⟩
      exact ⟨ha, hr⟩

theorem append_of_run {p : Char → Bool} {cs a rest : List Char} (h : run p cs = some (a, rest)) :
    a ++ rest = cs := by
  obtain ⟨_, rfl, rfl⟩ := run_eq_some_iff.mp h
  exact List.takeWhile_append_dropWhile

theorem mark_eq_some_iff {c : Char} {cs rest : List Char} :
    mark c cs = some rest ↔ cs = c :: rest := by
  cases cs with
  | nil => simp [mark]
  | cons d ds =>
    by_cases h : d = c
    · simp [mark, h]
    · simp [mark, h]

def comma (cs : List Char) : Option ((List Char × List Char) × List Char) := do
  let rest ← mark ',' (cs.dropWhile isSpace)
  return ((cs.takeWhile isSpace, rest.takeWhile isSpace), rest.dropWhile isSpace)

/-- What `p` reads at the first place where it reads anything. -/
def first (p : List Char → Option α) : List Char → Option α
  | [] => p []
  | c :: cs =>
    match p (c :: cs) with
    | some a => some a
    | none => first p cs

structure Bracketed where
  name : List Char
  inner : List Char
  deriving DecidableEq

def Bracketed.chars (b : Bracketed) : List Char := b.name ++ '[' :: b.inner ++ [']']

/-- The text between the brackets ends at the first closing one. -/
def bracketed (cs : List Char) : Option (Bracketed × List Char) := do
  let (name, cs) ← run isWord cs
  let cs ← mark '[' cs
  let (inner, cs) ← run (· != ']') cs
  let cs ← mark ']' cs
  return (⟨name, inner⟩, cs)

/-- Two operands and the comma between them, with the white space around the comma. -/
structure Pair (α : Type) where
  left : α
  gap : List Char × List Char
  right : α
  deriving DecidableEq

def pair (operand : List Char → Option (α × List Char)) (cs : List Char) : Option (Pair α) := do
  let (left, cs) ← operand cs
  let (gap, cs) ← comma cs
  let (right, _) ← operand cs
  return ⟨left, gap, right⟩

def Pair.chars (p : Pair α) (operand : α → List Char) : List Char :=
  operand p.left ++ p.gap.1 ++ ',' :: p.gap.2 ++ operand p.right

/-- The first `NAME[..], NAME[..]` of a line. -/
def binding? (line : List Char) : Option (Pair Bracketed) := first (pair bracketed) line

/-- The first `NAME, NAME` of a line. -/
def names? (line : List Char) : Option (Pair (List Char)) := first (pair (run isWord)) line

/-- Reads a keyword, given in small letters, in any letter case. -/
def keyword : List Char → List Char → Option (List Char)
  | [], cs => some cs
  | k :: ks, c :: cs => if c.toLower = k then keyword ks cs else none
  | _ :: _, [] => none

def headerHere (cs : List Char) : Option Unit := do
  let (_, cs) ← comma (← keyword ['t', 'o'] cs)
  let _ ← keyword ['l', 'o', 'c', 'a', 't', 'i', 'o', 'n'] cs

/-- The column titles `TO, LOCATION` stand somewhere in the line. -/
def hasHeader (line : List Char) : Bool := (first headerHere line).isSome

/-- A row cut at its dividing comma. -/
structure Row where
  /-- All that precedes the left cell -/
  before : List Char
  left : List Char
  right : List Char
  deriving DecidableEq

namespace Row

def chars (r : Row) : List Char := r.before ++ r.left ++ ',' :: r.right

/-- Puts a character in front; the left cell reaches back to the comma before it. -/
def cons (c : Char) (r : Row) : Row :=
  if c ≠ ',' ∧ r.before = [] then { r with left := c :: r.left }
  else { r with before := c :: r.before }

theorem chars_cons (c : Char) (r : Row) : (r.cons c).chars = c :: r.chars := by
  obtain ⟨before, left, right⟩ := r
  by_cases h : c ≠ ',' ∧ before = []
  · simp [cons, chars, h]
  · simp only [cons, if_neg h, chars]
    rfl

theorem right_cons (c : Char) (r : Row) : (r.cons c).right = r.right := by
  simp only [cons]
  split <;> rfl

end Row

/-- Cuts at the first comma that directly follows another character than a comma and has no line
feed anywhere after it; `inCell` tells whether such a character comes just before. -/
def divide (inCell : Bool) : List Char → Option Row
  | [] => none
  | c :: cs =>
    if c = ',' ∧ inCell ∧ '\n' ∉ cs then some ⟨[], [], cs⟩
    else (divide (c ≠ ',') cs).map (Row.cons c)

def row? (line : List Char) : Option Row := divide false line

theorem chars_of_divide {inCell : Bool} {cs : List Char} {r : Row}
    (h : divide inCell cs = some r) : r.chars = cs := by
  induction cs generalizing inCell r with
  | nil => simp [divide] at h
  | cons c cs ih =>
    rw [divide] at h
    split at h
    · next hc =>
      rw [Option.some.injEq] at h
      subst h
      simp [Row.chars, hc.1]
    · obtain ⟨t, ht, rfl⟩ := Option.map_eq_some_iff.mp h
      rw [Row.chars_cons, ih ht]

theorem chars_of_row? {line : List Char} {r : Row} (h : row? line = some r) : r.chars = line :=
  chars_of_divide h

end Pinout.Pattern
