import Pinout.File.Path
import Pinout.Octets
import Std.Data.ExtTreeMap

/-!
Files and directories below a root, one of which is the working directory. A path is followed name
by name, from the root or from the working directory, and everything before its last name must be a
directory.
-/

namespace Pinout

inductive Entry
  | file (content : Octets)
  | directory
  deriving DecidableEq

/-- What becomes of opening a file or directory for reading, by its path. -/
abbrev Opener := String → Except IoError Entry

structure FileTree where
  /-- Entries by the names that lead to them from the root -/
  entries : Std.ExtTreeMap (List String) Entry
  /-- The way from the root to the working directory -/
  home : List String
  deriving DecidableEq

namespace FileTree

/-- There is nothing but a root, in which all work is done. -/
def empty : FileTree := ⟨∅, []⟩

def put (t : FileTree) (place : List String) (e : Entry) : FileTree :=
  { t with entries := t.entries.insert place e }

def find? (t : FileTree) (place : List String) : Option Entry :=
  if place.isEmpty then some .directory else t.entries[place]?

/-- Paths lead on from a directory only. -/
def enter (t : FileTree) (dir : List String) : Except IoError Unit :=
  match t.find? dir with
  | none => .error .notFound
  | some (.file _) => .error .notDirectory
  | some .directory => .ok ()

/-- Goes from a directory to what one name in it means. The root is its own parent. -/
def step (t : FileTree) (dir : List String) (name : String) : Except IoError (List String) := do
  t.enter dir
  if name = "." then return dir
  else if name = ".." then return dir.dropLast
  else if 255 < name.utf8ByteSize then throw .nameTooLong
  else if (t.find? (dir ++ [name])).isNone then throw .notFound
  else return dir ++ [name]

def follow (t : FileTree) (place : List String) : List String → Except IoError (List String)
  | [] => .ok place
  | name :: rest =>
    match t.step place name with
    | .error e => .error e
    | .ok next => follow t next rest

def start (t : FileTree) (p : Path) : List String := if p.isAbsolute then [] else t.home

def openRead (t : FileTree) : Opener := fun path =>
  match Path.refusal? path with
  | some e => .error e
  | none =>
    let p := Path.ofText path
    match t.follow (t.start p) p.names with
    | .error e => .error e
    | .ok place =>
      match t.find? place with
      | none => .error .notFound
      | some .directory => .ok .directory
      | some (.file content) =>
        if p.endsWithSlash then .error .notDirectory else .ok (.file content)

/-- Finds the place of a file to be written, new or old; its directory must be there. -/
def openWrite (t : FileTree) (path : String) : Except IoError (List String) :=
  match Path.refusal? path with
  | some e => .error e
  | none =>
    let p := Path.ofText path
    match p.names.getLast? with
    | none => .error .isDirectory
    | some name => do
      let dir ← t.follow (t.start p) p.names.dropLast
      t.enter dir
      if name = "." ∨ name = ".." ∨ p.endsWithSlash then throw .isDirectory
      else if 255 < name.utf8ByteSize then throw .nameTooLong
      else if t.find? (dir ++ [name]) = some .directory then throw .isDirectory
      else return dir ++ [name]

def write (t : FileTree) (place : List String) (content : Octets) : FileTree :=
  t.put place (.file content)

/-- Writes on at the end of a file. -/
def append (t : FileTree) (place : List String) (more : Octets) : FileTree :=
  match t.find? place with
  | some (.file content) => t.write place (content ++ more)
  | _ => t

theorem enter_eq_ok_iff {t : FileTree} {dir : List String} :
    t.enter dir = .ok () ↔ t.find? dir = some .directory := by
  unfold enter
  split <;> simp_all

theorem find?_write_same {t : FileTree} {place : List String} (content : Octets)
    (h : place ≠ []) : (t.write place content).find? place = some (.file content) := by
  simp [write, put, find?, h]

theorem find?_write_other {t : FileTree} {place other : List String} (content : Octets)
    (h : place ≠ other) : (t.write place content).find? other = t.find? other := by
  simp [write, put, find?, Std.ExtTreeMap.getElem?_insert, h]

theorem write_write (t : FileTree) (place : List String) (old new : Octets) :
    (t.write place old).write place new = t.write place new := by
  simp only [write, put]
  congr 1
  apply Std.ExtTreeMap.ext_getElem?
  intro other
  simp only [Std.ExtTreeMap.getElem?_insert]
  split <;> rfl

theorem append_write {t : FileTree} {place : List String} (content more : Octets)
    (h : place ≠ []) :
    (t.write place content).append place more = t.write place (content ++ more) := by
  rw [append, find?_write_same content h]
  exact write_write t place content (content ++ more)

end FileTree

end Pinout
