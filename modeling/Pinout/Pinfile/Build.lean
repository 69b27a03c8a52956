import Pinout.Pinfile.Expansion
import Pinout.Pinfile.Replacement

/-!
Building a pinfile: expansion, then replacement of the pin names in the expanded rows.
-/

namespace Pinout

inductive BuildError
  | expansion (error : LineError)
  | replacement (error : ReplaceError)
  deriving DecidableEq

def BuildError.message : BuildError → String
  | expansion e => "Expansion failed. " ++ e.message
  | replacement e => "Pin replacement failed. " ++ e.message

namespace Pinfile

/-- An expansion that was halted has no rows to replace names in. Errors of the expansion come
before errors of the replacement. -/
def buildFromTelling (table : PinTable) (policy : Policy) (expanded : Report LineError) :
    Told (Report BuildError) := do
  if !policy.goesOn && !expanded.isClean then
    Told.tell .expansionHalted "Expansion halted, skipping pin replacement"
    return ⟨[], expanded.errors.map .expansion⟩
  else
    let replaced ← locateTelling table policy expanded.lines
    Told.tell .pinfileBuilt ("Built pinfile: " ++ Numeral.text expanded.errors.length ++
      " expansion errors, " ++ Numeral.text replaced.errors.length ++ " replacement errors")
    return ⟨replaced.lines,
      expanded.errors.map .expansion ++ replaced.errors.map .replacement⟩

def buildFrom (table : PinTable) (policy : Policy) (expanded : Report LineError) :
    Report BuildError :=
  (buildFromTelling table policy expanded).result

theorem buildFrom_eq (table : PinTable) (policy : Policy) (expanded : Report LineError) :
    buildFrom table policy expanded =
      if !policy.goesOn && !expanded.isClean then ⟨[], expanded.errors.map .expansion⟩
      else
        let replaced := locate table policy expanded.lines
        ⟨replaced.lines, expanded.errors.map .expansion ++ replaced.errors.map .replacement⟩ := by
  unfold buildFrom buildFromTelling
  split <;> rfl

def buildTelling (table : PinTable) (policy : Policy) (text : String) :
    Told (Report BuildError) := do
  let expanded ← expandTelling policy (← bodyTelling text)
  buildFromTelling table policy expanded

def build (table : PinTable) (policy : Policy) (text : String) : Report BuildError :=
  (buildTelling table policy text).result

theorem build_eq (table : PinTable) (policy : Policy) (text : String) :
    build table policy text = buildFrom table policy (expand policy (body text)) := by
  rw [build, buildTelling, Told.result_bind, Told.result_bind, buildFrom, expand, body]

end Pinfile

end Pinout
