import Pinout.File.Tree
import Pinout.Gzip.Member
import Pinout.Journal
import Pinout.Json.Mapping
import Pinout.PinTable.Map
import Pinout.Yaml.Mapping

/-!
Pin tables in files. Format and compression are given or guessed from the name of the file; a
format that is neither is refused before the file is looked for.
-/

namespace Pinout

inductive TableFormat
  | json
  | yaml
  deriving DecidableEq

def TableFormat.name : TableFormat → String
  | json => "Json"
  | yaml => "Yaml"

inductive TableError
  | cantOpen (path : String) (cause : IoError)
  | unknownFormat (path : String)
  | json (problem : Json.Problem) (text : String)
  | yaml (text : String)
  deriving DecidableEq

def TableError.message : TableError → String
  | cantOpen path cause => "Couldn't open pin table " ++ path ++ ": " ++ cause.message
  | unknownFormat path =>
    "Unrecognized pin table format of " ++ path ++
      " (expected .json, .yaml or .yml, optionally followed by .gz)"
  | json _ text => "Malformed JSON pin table: " ++ text
  | yaml text => "Malformed YAML pin table: " ++ text

namespace PinTable

/-- What documents do not say about the tables they are read as: the order in which the pairs of a
map come out, and how a problem with a document is put into words. -/
structure Reader where
  order : PinMap.Order
  jsonText : Octets.Delivery → String
  yamlText : Octets.Delivery → String

/-- A reader that has no words for problems. -/
def Reader.silent (order : PinMap.Order) : Reader := ⟨order, fun _ => "", fun _ => ""⟩

section Read
variable (reader : Reader)

def ofJson (d : Octets.Delivery) : Except TableError PinTable :=
  match Json.pairs d with
  | .ok pairs => .ok (ofMap reader.order (.ofPairs pairs))
  | .error p => .error (.json p (reader.jsonText d))

def ofYaml (d : Octets.Delivery) : Except TableError PinTable :=
  if !d.complete then .error (.yaml (reader.yamlText d))
  else match (Octets.text? d.octets).bind Yaml.pairs? with
    | some pairs => .ok (ofMap reader.order (.ofPairs pairs))
    | none => .error (.yaml (reader.yamlText d))

def read (format : TableFormat) (d : Octets.Delivery) : Except TableError PinTable :=
  match format with
  | .json => ofJson reader d
  | .yaml => ofYaml reader d

end Read

def beforeEnding? (ending cs : List Char) : Option (List Char) :=
  if ending.isSuffixOf cs then some (cs.take (cs.length - ending.length)) else none

structure Guess where
  format : Option TableFormat
  isGzipped : Bool
  deriving DecidableEq

def formatOf (name : List Char) : Option TableFormat :=
  if ".json".toList.isSuffixOf name then some .json
  else if ".yaml".toList.isSuffixOf name || ".yml".toList.isSuffixOf name then some .yaml
  else none

/-- Letter case does not matter. The letters of the endings are no small forms of others than the
ASCII capitals. -/
def guessName (name : List Char) : Guess :=
  let name := name.map Char.toLower
  match beforeEnding? ".gz".toList name with
  | some stem => ⟨formatOf stem, true⟩
  | none => ⟨formatOf name, false⟩

def guess (path : String) : Guess :=
  guessName (((Path.ofText path).fileName?).getD "").toList

/-- What is known beforehand; the rest is guessed. -/
structure Options where
  format : Option TableFormat
  isGzipped : Option Bool

def Options.default : Options := ⟨none, none⟩

/-- What reading an opened file delivers. A directory opens, but cannot be read. -/
def delivery (isGzipped : Bool) : Entry → Octets.Delivery
  | .directory => ⟨[], false⟩
  | .file content => if isGzipped then Gzip.decompress content else Octets.whole content

section Open
variable (reader : Reader)

/-- Reads a table from what opening its file has come to. -/
def openedTelling (path : String) (format : TableFormat) (isGzipped : Bool) :
    Except IoError Entry → ExceptT TableError Told PinTable
  | .error cause => throw (.cantOpen path cause)
  | .ok entry => do
    let table ← liftM (read reader format (delivery isGzipped entry))
    Told.tell .tableLoaded ("Loaded " ++ Numeral.text table.size ++ " pins from " ++ path ++ " (" ++
      format.name ++ ", gzip: " ++ (if isGzipped then "true" else "false") ++ ")")
    return table

theorem result_openedTelling (path : String) (format : TableFormat) (isGzipped : Bool)
    (opened : Except IoError Entry) :
    (openedTelling reader path format isGzipped opened).run.result =
      match opened with
      | .error cause => .error (.cantOpen path cause)
      | .ok entry => read reader format (delivery isGzipped entry) := by
  cases opened with
  | error cause => rfl
  | ok entry =>
    simp only [openedTelling, Told.result_run_bind, Told.result_run_ofExcept]
    cases read reader format (delivery isGzipped entry) <;> rfl

/-- Files are opened by a step of any kind, which is not taken if the format is not known. -/
def openWithTelling {m : Type → Type} [Monad m] (openRead : String → m (Except IoError Entry))
    (path : String) (options : Options) : m (Told (Except TableError PinTable)) := do
  let g := guess path
  match options.format.or g.format with
  | none => return (throw (.unknownFormat path) : ExceptT TableError Told PinTable).run
  | some format => do
    let isGzipped := options.isGzipped.getD g.isGzipped
    return (openedTelling reader path format isGzipped (← openRead path)).run

/-- Opens a table of which nothing is known beforehand. -/
def loadTelling {m : Type → Type} [Monad m] (openRead : String → m (Except IoError Entry))
    (path : String) : m (Told (Except TableError PinTable)) :=
  openWithTelling reader openRead path .default

def openWith (openRead : Opener) (path : String) (options : Options) :
    Except TableError PinTable :=
  (openWithTelling (m := Id) reader openRead path options).run.result

def load (openRead : Opener) (path : String) : Except TableError PinTable :=
  openWith reader openRead path .default

theorem openWith_eq (openRead : Opener) (path : String) (options : Options) :
    openWith reader openRead path options =
      match options.format.or (guess path).format with
      | none => .error (.unknownFormat path)
      | some format =>
        match openRead path with
        | .error cause => .error (.cantOpen path cause)
        | .ok entry =>
          read reader format (delivery (options.isGzipped.getD (guess path).isGzipped) entry) := by
  rw [openWith, openWithTelling]
  dsimp only
  split
  · rfl
  · exact result_openedTelling reader path _ _ _

end Open

end PinTable

end Pinout
