import Pinout.Command.Run

/-!
The command itself: a run among the files and streams of the system.
-/

namespace Pinout.Main

def ioError : IO.Error → IoError
  | .noFileOrDirectory .. => .notFound
  | .inappropriateType .. => .isDirectory
  | e => .other (toString e)

/-- What a step comes to that can fail. -/
def attempt {α : Type} (step : IO α) : IO (Except IoError α) := do
  try
    return .ok (← step)
  catch e => return .error (ioError e)

def octetArray (os : Octets) : ByteArray := ⟨os.toArray⟩

/-- What opens but cannot be read is taken for a directory. -/
def readHandle (handle : IO.FS.Handle) : IO Entry := do
  try
    return .file (← handle.readBinToEnd).data.toList
  catch _ => return .directory

def surroundings : Surroundings IO IO.FS.Handle where
  openRead path := attempt do readHandle (← IO.FS.Handle.mk path .read)
  stdin := attempt do return (← (← IO.getStdin).readBinToEnd).data.toList
  create path := attempt (IO.FS.Handle.mk path .write)
  write
    | none, os => attempt do (← IO.getStdout).write (octetArray os)
    | some handle, os => attempt (handle.write (octetArray os))
  say := IO.eprintln

def problemText : Json.Problem → String
  | .unreadable => "the table cannot be read to its end"
  | .endsEarly => "the text ends too early"
  | .malformed => "the text is not JSON"
  | .unfitting => "the table is not an object of strings"

def reader : PinTable.Reader where
  order := .byName
  jsonText d :=
    match Json.pairs d with
    | .ok _ => ""
    | .error problem => problemText problem
  yamlText _ := "the document is not a mapping of scalars"

/-- The part of the program that tells the notes of a topic, and which of its notes they are. -/
def place : Topic → Place
  | .specifierMatched => ⟨"specifier", 1⟩
  | .specifierResolved => ⟨"specifier", 2⟩
  | .headerDropped => ⟨"pinfile", 1⟩
  | .lineExpanded => ⟨"pinfile", 2⟩
  | .pinfileExpanded => ⟨"pinfile", 3⟩
  | .errorMet => ⟨"report", 1⟩
  | .pinReplaced => ⟨"replacement", 1⟩
  | .pinsReplaced => ⟨"replacement", 2⟩
  | .expansionHalted => ⟨"build", 1⟩
  | .pinfileBuilt => ⟨"build", 2⟩
  | .tableLoaded => ⟨"table", 1⟩

end Pinout.Main

open Pinout in
def main (args : List String) : IO UInt32 := do
  let environment : Environment :=
    ⟨← IO.getEnv "PEX_DBG_LOG_LEVEL", ← IO.getEnv "PEX_PRINT_CODE_INFO"⟩
  let settings := environment.settings Main.place
  return (← Command.run Main.surroundings Main.reader settings args).toUInt32
