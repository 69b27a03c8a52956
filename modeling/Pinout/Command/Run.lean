import Pinout.Command.Arguments
import Pinout.File.Stream
import Pinout.Pinfile.Build
import Pinout.PinTable.Load

/-!
Runs of the command. A run first takes in the pin table and the input, then does its task on what
it has read, and writes the rows last, so that the output may be one of the files it has read.
-/

namespace Pinout.Command

/-- A task with its pin table at hand. -/
inductive Job
  | expand
  | replace (table : PinTable)
  | build (table : PinTable)

namespace Job

def reportTelling (policy : Policy) (text : String) : Job → Told (Report String)
  | expand => do
    return (← Pinfile.expandTelling policy (← Pinfile.bodyTelling text)).mapErrors LineError.message
  | replace table => do
    return (← Pinfile.locateTelling table policy (Pinfile.trimmedLines text)).mapErrors
      ReplaceError.message
  | build table => do
    return (← Pinfile.buildTelling table policy text).mapErrors BuildError.message

def report (policy : Policy) (text : String) (job : Job) : Report String :=
  (job.reportTelling policy text).result

theorem report_expand (policy : Policy) (text : String) :
    expand.report policy text =
      (Pinfile.expand policy (Pinfile.body text)).mapErrors LineError.message := by
  rw [report, reportTelling, Told.result_bind, Told.result_bind, Told.result_pure, Pinfile.expand,
    Pinfile.body]

theorem report_replace (policy : Policy) (text : String) (table : PinTable) :
    (replace table).report policy text =
      (Pinfile.locate table policy (Pinfile.trimmedLines text)).mapErrors
        ReplaceError.message := by
  rw [report, reportTelling, Told.result_bind, Told.result_pure, Pinfile.locate]

theorem report_build (policy : Policy) (text : String) (table : PinTable) :
    (build table).report policy text =
      (Pinfile.build table policy text).mapErrors BuildError.message := by
  rw [report, reportTelling, Told.result_bind, Told.result_pure, Pinfile.build]

end Job

def versionText : String := "pex 0.0.1"

def usageText : String :=
  "Usage: pex expand [--keep-going] [INPUT] [OUTPUT]\n" ++
  "       pex replace --pins PINS [--keep-going] [INPUT] [OUTPUT]\n" ++
  "       pex build --pins PINS [--keep-going] [INPUT] [OUTPUT]"

def failure? (r : Report String) : Option String :=
  if r.isClean then none else some (Text.stack r.errors)

section Run
variable {m : Type → Type} [Monad m] {Handle : Type} (s : Surroundings m Handle)
  (reader : PinTable.Reader) (settings : Settings)

/-- Shows the notes on the way to a result. -/
def heed {α : Type} (x : Told α) : m α := do
  let (notes, a) := x.heard settings.shown
  (notes.map (Note.line settings.places)).forM s.say
  return a

def loadTable (pins : String) : m (Except TableError PinTable) := do
  heed s settings (← PinTable.loadTelling reader s.openRead pins)

def jobOf : Task → m (Except TableError Job)
  | .expand => return .ok .expand
  | .replace pins => return (← loadTable s reader settings pins).map .replace
  | .build pins => return (← loadTable s reader settings pins).map .build

/-- All of a run that comes before its output: a report, or the message that it ends with. -/
def work (i : Invocation) : m (Except String (Report String)) := do
  match ← jobOf s reader settings i.task with
  | .error e => return .error e.message
  | .ok job =>
    match ← Stream.input s i.input with
    | .error e => return .error e.message
    | .ok text => return .ok (← heed s settings (job.reportTelling i.policy text))

/-- Writes the rows of a report, be it clean or not. -/
def deliver (output : Option String) (r : Report String) : m (Except StreamError Unit) := do
  match ← Stream.openOutput s output with
  | .error e => return .error e
  | .ok handle => return (← s.write handle (Stream.octetsOf r.lines)).mapError .write

/-- What remains to be done with the outcome of the work; the answer is the message of a failure. -/
def finish (output : Option String) : Except String (Report String) → m (Option String)
  | .error message => return some message
  | .ok report => do
    match ← deliver s output report with
    | .error e => return some e.message
    | .ok () => return failure? report

/-- The message of a failure comes last. -/
def conclude : Option String → m Nat
  | none => return 0
  | some message => do
    s.say message
    return 1

def perform (i : Invocation) : m Nat := do
  conclude s (← finish s i.output (← work s reader settings i))

/-- What is done with the arguments of the command, and the status at the end. -/
def run (args : List String) : m Nat := do
  match Arguments.read args with
  | .version => do
    discard <| s.write none (Octets.ofText (versionText ++ "\n"))
    return 0
  | .help => do
    discard <| s.write none (Octets.ofText (usageText ++ "\n"))
    return 0
  | .unusable => do
    s.say usageText
    return 2
  | .perform i => perform s reader settings i

end Run

structure Outcome where
  status : Nat
  stdout : Octets
  stderr : String
  files : FileTree
  deriving DecidableEq

/-- The status that a run ends with and what is left of the world then. -/
def Outcome.ofEnd (last : Nat × World) : Outcome :=
  ⟨last.1, last.2.stdout, last.2.stderr, last.2.files⟩

/-- What a run leaves behind. -/
def outcome (reader : PinTable.Reader) (settings : Settings) (args : List String)
    (files : FileTree) (stdin : Octets) : Outcome :=
  .ofEnd ((run World.surroundings reader settings args).run (.ofFiles files stdin))

end Pinout.Command
