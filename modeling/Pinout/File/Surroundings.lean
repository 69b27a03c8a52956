import Pinout.File.Tree

/-!
What a program asks of the system around it, and a world that answers it: a tree of files, an input
and two outputs. Nothing else happens in that world while the program runs.
-/

namespace Pinout

/-- The questions to a system and the orders that it takes, each a step of `m`. -/
structure Surroundings (m : Type → Type) (Handle : Type) where
  openRead : String → m (Except IoError Entry)
  stdin : m (Except IoError Octets)
  /-- Makes a file to write to, or empties the one that is there. -/
  create : String → m (Except IoError Handle)
  /-- Writes to a file, or to the standard output. -/
  write : Option Handle → Octets → m (Except IoError Unit)
  /-- Writes a line to the output for messages. -/
  say : String → m Unit

structure World where
  files : FileTree
  stdin : Octets
  stdout : Octets
  stderr : String
  deriving DecidableEq

namespace World

def ofFiles (files : FileTree) (stdin : Octets) : World := ⟨files, stdin, [], ""⟩

def create (path : String) : StateM World (Except IoError (List String)) := do
  match (← get).files.openWrite path with
  | .error cause => return .error cause
  | .ok place => do
    modify fun w => { w with files := w.files.write place [] }
    return .ok place

def write (handle : Option (List String)) (os : Octets) : StateM World (Except IoError Unit) := do
  match handle with
  | none => modify fun w => { w with stdout := w.stdout ++ os }
  | some place => modify fun w => { w with files := w.files.append place os }
  return .ok ()

def say (text : String) : StateM World Unit :=
  modify fun w => { w with stderr := w.stderr ++ text ++ "\n" }

/-- Files are named by the places where they are, and all that is written finds room. -/
def surroundings : Surroundings (StateM World) (List String) where
  openRead path := return (← get).files.openRead path
  stdin := return .ok (← get).stdin
  create := create
  write := write
  say := say

/-- What comes next goes on from the world that a step has left. -/
theorem run_bind_of_run {α β : Type} {x : StateM World α} {w w' : World} {a : α}
    (h : x.run w = (a, w')) (f : α → StateM World β) : (x >>= f).run w = (f a).run w' := by
  rw [StateT.run_bind, h]
  rfl

theorem run_create_error {w : World} {path : String} {cause : IoError}
    (h : w.files.openWrite path = .error cause) : (create path).run w = (.error cause, w) := by
  rw [create, StateT.run_bind]
  simp only [StateT.run_get, pure_bind, h]
  rfl

theorem run_create_ok {w : World} {path : String} {place : List String}
    (h : w.files.openWrite path = .ok place) :
    (create path).run w = (.ok place, { w with files := w.files.write place [] }) := by
  rw [create, StateT.run_bind]
  simp only [StateT.run_get, pure_bind, h]
  rfl

theorem run_say (w : World) (text : String) :
    (say text).run w = ((), { w with stderr := w.stderr ++ text ++ "\n" }) := rfl

end World

end Pinout
