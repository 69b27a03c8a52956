import Pinout.Numeral
import Pinout.Specifier.Error

/-!
Why a line of a pinfile cannot be expanded.
-/

namespace Pinout

inductive LineFault
  | unparsable (text : String)
  | specifier (culprit : String) (cause : ResolveError)
  | twoImplicit (left right : String)
  | lengthMismatch (left : String) (leftLength : Nat) (right : String) (rightLength : Nat)
  deriving DecidableEq

def LineFault.message : LineFault → String
  | unparsable text => "Cannot parse line.\n" ++ text
  | specifier culprit cause => cause.message ++ "\nCulprit: " ++ culprit
  | twoImplicit left right =>
    "Cannot have two implicit specifiers!\nCulprits: '" ++ left ++ "' '" ++ right ++ "'"
  | lengthMismatch left m right n =>
    "Cannot have two specifiers with different index lengths.\nCulprits: '" ++ left ++ "' (" ++
      Numeral.text m ++ " indices), '" ++ right ++ "' (" ++ Numeral.text n ++ " indices)"

/-- A fault and the number of its line, counted from one. -/
structure LineError where
  line : Nat
  fault : LineFault
  deriving DecidableEq

def LineError.message (e : LineError) : String :=
  "Error at Line Number: " ++ Numeral.text e.line ++ "\n" ++ e.fault.message

end Pinout
