import Pinout.File.Error

/-!
Paths as they are written: names between slashes. Empty names count for nothing, except that a
slash at the end asks for a directory.
-/

namespace Pinout

structure Path where
  isAbsolute : Bool
  names : List String
  endsWithSlash : Bool
  deriving DecidableEq

namespace Path

/-- The texts between slashes; a text without a slash is one of them. -/
def segments : List Char → List (List Char)
  | [] => [[]]
  | c :: cs =>
    if c = '/' then [] :: segments cs
    else match segments cs with
      | [] => [[c]]
      | s :: ss => (c :: s) :: ss

def ofText (s : String) : Path where
  isAbsolute := s.toList.head? = some '/'
  names := ((segments s.toList).filter (!·.isEmpty)).map String.ofList
  endsWithSlash := s.toList.getLast? = some '/'

/-- The name of the file that a path is for; there is none if the path ends in `..`. -/
def fileName? (p : Path) : Option String :=
  match (p.names.filter (· ≠ ".")).getLast? with
  | some ".." => none
  | other => other

/-- Why no system takes the text for a path. -/
def refusal? (s : String) : Option IoError :=
  if s.toList.contains '\x00' then some .nulInName
  else if s.isEmpty then some .notFound
  else if 4096 ≤ s.utf8ByteSize then some .nameTooLong
  else none

end Path

end Pinout
