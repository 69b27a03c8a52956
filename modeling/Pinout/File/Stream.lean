import Pinout.File.Surroundings
import Pinout.Text.Lines

/-!
Input and output of a run. Input is read as a whole and must be text; output is lines, written
one after the other for as long as there is room.
-/

namespace Pinout

inductive StreamError
  | cantOpen (path : String) (cause : IoError)
  | read (cause : IoError)
  | write (cause : IoError)
  deriving DecidableEq

def StreamError.message : StreamError → String
  | cantOpen path cause => "Couldn't open " ++ path ++ ": " ++ cause.message
  | read cause => "Couldn't read input: " ++ cause.message
  | write cause => "Couldn't write output: " ++ cause.message

namespace Stream

def textOf (content : Octets) : Except StreamError String :=
  match content.text? with
  | some s => .ok s
  | none => .error (.read .invalidText)

/-- What opening a named input has come to. -/
def textOfOpened (path : String) : Except IoError Entry → Except StreamError String
  | .error cause => .error (.cantOpen path cause)
  | .ok .directory => .error (.read .isDirectory)
  | .ok (.file content) => textOf content

section Surroundings
variable {m : Type → Type} [Monad m] {Handle : Type} (s : Surroundings m Handle)

def input : Option String → m (Except StreamError String)
  | none => return ((← s.stdin).mapError .read).bind textOf
  | some path => return textOfOpened path (← s.openRead path)

/-- A named file, or the standard output. -/
def openOutput : Option String → m (Except StreamError (Option Handle))
  | none => return .ok none
  | some path => return ((← s.create path).map some).mapError (.cantOpen path)

end Surroundings

/-- A receiver of octets; without a bound it takes them all. -/
structure Sink where
  taken : Octets
  room : Option Nat
  deriving DecidableEq

namespace Sink

def bounded (room : Nat) : Sink := ⟨[], some room⟩

def unbounded : Sink := ⟨[], none⟩

/-- Takes as many of the octets as there is room for; not to take all of them is a failure. -/
def write (s : Sink) (os : Octets) : Sink × Bool :=
  match s.room with
  | none => (⟨s.taken ++ os, none⟩, true)
  | some n => (⟨s.taken ++ os.take n, some (n - os.length)⟩, os.length ≤ n)

end Sink

/-- Writes each line and a line feed after it, up to the first failure. -/
def emit (s : Sink) : List String → Sink × Except StreamError Unit
  | [] => (s, .ok ())
  | line :: rest =>
    match s.write (Octets.ofText line) with
    | (s, false) => (s, .error (.write .noRoom))
    | (s, true) =>
      match s.write (Octets.ofText "\n") with
      | (s, false) => (s, .error (.write .noRoom))
      | (s, true) => emit s rest

/-- The octets that lines come to where all of them find room. -/
def octetsOf (lines : List String) : Octets := (emit .unbounded lines).1.taken

end Stream

end Pinout
