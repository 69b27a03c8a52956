import Pinout.Numeral
import Pinout.Specifier.Grammar

/-!
Which texts a grammar accepts, and the numerals it captures from them. A text is matched as a
whole; nothing may stand before or after it.
-/

namespace Pinout.Grammar

/-- Parts of a written specifier: a numeral, or one fixed character. -/
inductive Piece
  | numeral
  | mark (c : Char)
  deriving DecidableEq

/-- The parts of every grammar whose number of numerals is fixed. -/
def pieces : Grammar → List Piece
  | list => []
  | range => [.numeral, .mark '.', .mark '.', .numeral]
  | strideTo => [.numeral, .mark ':', .numeral, .mark '.', .mark '.', .numeral]
  | stride => [.numeral, .mark ':', .numeral, .mark ':', .numeral]
  | reuse => [.mark '.', .mark '.']
  | shift => [.numeral, .mark '.', .mark '.']
  | countUp => [.numeral, .mark '.', .mark '.', .mark '#']
  | countDown => [.mark '#', .mark '.', .mark '.', .numeral]
  | strideAlong => [.numeral, .mark ':', .numeral, .mark ':', .mark '#']

/-- A numeral takes every digit there is, so at most one reading exists. -/
def readPieces : List Piece → List Char → Option (List (List Char))
  | [], cs => if cs.isEmpty then some [] else none
  | .mark c :: ps, cs =>
    match cs with
    | d :: rest => if c = d then readPieces ps rest else none
    | [] => none
  | .numeral :: ps, cs =>
    let digits := cs.takeWhile Char.isDigit
    if digits.isEmpty then none
    else (readPieces ps (cs.dropWhile Char.isDigit)).map (digits :: ·)

/-- The texts between commas; a text without a comma is one cell. -/
def cells : List Char → List (List Char)
  | [] => [[]]
  | c :: cs =>
    if c = ',' then [] :: cells cs
    else match cells cs with
      | [] => [[c]]
      | d :: ds => (c :: d) :: ds

def captureChars (g : Grammar) (cs : List Char) : Option (List (List Char)) :=
  match g with
  | list => if (cells cs).all Numeral.isNumeral then some (cells cs) else none
  | g => readPieces g.pieces cs

/-- The numerals of a text in this grammar, as they are written. -/
def capture (g : Grammar) (text : String) : Option (List String) :=
  (g.captureChars text.toList).map (·.map String.ofList)

end Pinout.Grammar
