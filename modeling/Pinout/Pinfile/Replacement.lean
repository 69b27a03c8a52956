import Pinout.Line.Pattern
import Pinout.Numeral
import Pinout.PinTable.Basic
import Pinout.Report

/-!
Replacement of pin names by locations: the right-hand name of every row gives way to the location
that the pin table has for it.
-/

namespace Pinout

inductive ReplaceError
  | unparsable (line : Nat) (text : String)
  | unknownPin (line : Nat) (name : String)
  deriving DecidableEq

namespace ReplaceError

def line : ReplaceError → Nat
  | unparsable line _ | unknownPin line _ => line

def message : ReplaceError → String
  | unparsable line text =>
    "Error(" ++ Numeral.text line ++ "). Cannot parse expanded line '" ++ text ++ "'."
  | unknownPin line name =>
    "Error(" ++ Numeral.text line ++ "). No pin associated with name '" ++ name ++ "'."

end ReplaceError

namespace Pinfile

def locationTitle : String := "LOCATION"

/-- The name that a row asks for: its right cell, trimmed and in upper case. -/
def pinName (r : Pattern.Row) : String :=
  Text.upper (String.ofList (Text.trimChars r.right))

/-- The row up to its name, with the white space before the name, and then the location. -/
def withLocation (r : Pattern.Row) (location : String) : String :=
  String.ofList (r.before ++ r.left ++ ',' :: r.right.takeWhile Text.isSpace) ++ location

/-- Blank lines and column titles stay as they are; `n` is the number of the line. -/
def locateLineTelling (table : PinTable) (n : Nat) (line : String) :
    ExceptT ReplaceError Told String := do
  if Text.isBlank line then return line
  else match Pattern.row? line.toList with
    | none => throw (.unparsable n line)
    | some r =>
      if pinName r = locationTitle then return line
      else match table.lookup (pinName r) with
        | none => throw (.unknownPin n (pinName r))
        | some location => do
          Told.tell .pinReplaced (pinName r ++ " -> " ++ location)
          return withLocation r location

def locateLine (table : PinTable) (n : Nat) (line : String) : Except ReplaceError String :=
  (locateLineTelling table n line).run.result

theorem locateLine_eq (table : PinTable) (n : Nat) (line : String) :
    locateLine table n line =
      if Text.isBlank line then .ok line
      else match Pattern.row? line.toList with
        | none => .error (.unparsable n line)
        | some r =>
          if pinName r = locationTitle then .ok line
          else match table.lookup (pinName r) with
            | none => .error (.unknownPin n (pinName r))
            | some location => .ok (withLocation r location) := by
  unfold locateLine locateLineTelling
  split
  · rfl
  split
  · rfl
  split
  · rfl
  split <;> rfl

theorem locateLine_error_cases {table : PinTable} {n : Nat} {line : String} {e : ReplaceError}
    (h : locateLine table n line = .error e) :
    (Text.isBlank line = false ∧ Pattern.row? line.toList = none ∧ e = .unparsable n line) ∨
    ∃ r, Pattern.row? line.toList = some r ∧ pinName r ≠ locationTitle ∧
      table.lookup (pinName r) = none ∧ e = .unknownPin n (pinName r) := by
  rw [locateLine_eq] at h
  split at h
  · cases h
  · rename_i hb
    split at h
    · rename_i hr
      cases h
      exact Or.inl ⟨by simpa using hb, hr, rfl⟩
    · rename_i r hr
      split at h
      · cases h
      · rename_i hn
        split at h
        · rename_i hl
          cases h
          exact Or.inr ⟨r, hr, hn, hl, rfl⟩
        · cases h

def locateRowTelling (table : PinTable) (n : Nat) (line : String) :
    ExceptT ReplaceError Told (List String) := do
  return [← locateLineTelling table n line]

def locateRow (table : PinTable) (n : Nat) (line : String) : Except ReplaceError (List String) :=
  (locateRowTelling table n line).run.result

theorem locateRow_eq (table : PinTable) (n : Nat) (line : String) :
    locateRow table n line = (locateLine table n line).map ([·]) := by
  rw [locateRow, locateRowTelling, Told.result_run_bind]
  rfl

theorem locateRow_eq_ok_iff {table : PinTable} {n : Nat} {line : String} {rows : List String} :
    locateRow table n line = .ok rows ↔
      ∃ row, locateLine table n line = .ok row ∧ rows = [row] := by
  cases h : locateLine table n line <;> simp [locateRow_eq, h, Except.map, eq_comm]

theorem locateRow_eq_error_iff {table : PinTable} {n : Nat} {line : String} {e : ReplaceError} :
    locateRow table n line = .error e ↔ locateLine table n line = .error e := by
  cases h : locateLine table n line <;> simp [locateRow_eq, h, Except.map]

/-- What becomes of a line that can be replaced; its number plays no part. -/
inductive Located (table : PinTable) (line : String) : String → Prop where
  | blank : Text.isBlank line = true → Located table line line
  | title {r : Pattern.Row} : Text.isBlank line = false → Pattern.row? line.toList = some r →
      pinName r = locationTitle → Located table line line
  | pin {r : Pattern.Row} {location : String} : Text.isBlank line = false →
      Pattern.row? line.toList = some r → pinName r ≠ locationTitle →
        table.lookup (pinName r) = some location → Located table line (withLocation r location)

theorem locateLine_eq_ok_iff {table : PinTable} {n : Nat} {line row : String} :
    locateLine table n line = .ok row ↔ Located table line row := by
  constructor
  · intro h
    rw [locateLine_eq] at h
    split at h
    · rename_i hb
      cases h
      exact .blank hb
    · rename_i hb
      rw [Bool.not_eq_true] at hb
      split at h
      · cases h
      · rename_i r hr
        split at h
        · rename_i hn
          cases h
          exact .title hb hr hn
        · rename_i hn
          split at h
          · cases h
          · rename_i location hl
            cases h
            exact .pin hb hr hn hl
  · intro h
    cases h with
    | blank hb => simp [locateLine_eq, hb]
    | title hb hr hn => simp [locateLine_eq, hb, hr, hn]
    | pin hb hr hn hl => simp [locateLine_eq, hb, hr, hn, hl]

def locateTelling (table : PinTable) (policy : Policy) (lines : List String) :
    Told (Report ReplaceError) := do
  let report ← Report.collectTelling ReplaceError.message policy (locateRowTelling table) .empty 1
    lines
  Told.tell .pinsReplaced ("Replaced pins in " ++ Numeral.text report.lines.length ++
    " lines with " ++ Numeral.text report.errors.length ++ " errors")
  return report

def locate (table : PinTable) (policy : Policy) (lines : List String) : Report ReplaceError :=
  (locateTelling table policy lines).result

theorem locate_eq (table : PinTable) (policy : Policy) (lines : List String) :
    locate table policy lines = Report.collect policy (locateRow table) 1 lines := by
  rw [locate, locateTelling, Told.result_bind, Report.result_collectTelling, Report.empty_append]
  rfl

def locateAll (table : PinTable) (lines : List String) : Except ReplaceError (List String) :=
  (locate table .halt lines).rowsOrFirstError

end Pinfile

end Pinout
