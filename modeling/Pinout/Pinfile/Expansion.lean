import Pinout.Line.Basic
import Pinout.Report
import Pinout.Text.Lines

/-!
Expansion of a pinfile: the body lines of its text, and the rows that they yield under a row of
column titles.
-/

namespace Pinout.Pinfile

def trimmedLines (text : String) : List String := Text.lines (Text.trim text)

/-- The lines without a leading row of column titles. -/
def bodyTelling (text : String) : Told (List String) :=
  match trimmedLines text with
  | [] => return []
  | l :: ls =>
    if Pattern.hasHeader l.toList then do
      Told.tell .headerDropped "Dropped pinfile header"
      return ls
    else return l :: ls

def body (text : String) : List String := (bodyTelling text).result

theorem body_eq (text : String) :
    body text = match trimmedLines text with
      | [] => []
      | l :: ls => if Pattern.hasHeader l.toList then ls else l :: ls := by
  unfold body bodyTelling
  split
  · rfl
  · split <;> rfl

theorem mem_trimmedLines_of_mem_body {text line : String} (h : line ∈ body text) :
    line ∈ trimmedLines text := by
  rw [body_eq] at h
  cases ht : trimmedLines text with
  | nil => simp [ht] at h
  | cons l ls =>
    rw [ht] at h
    simp only at h
    split at h
    · exact List.mem_cons_of_mem l h
    · exact h

theorem newline_not_mem_body {text line : String} (h : line ∈ body text) : '\n' ∉ line.toList :=
  Text.newline_not_mem_lines (mem_trimmedLines_of_mem_body h)

/-- The column titles of every expansion. -/
def header : String := "To, Location"

def expandLineTelling (n : Nat) (line : String) : ExceptT LineError Told (List String) := do
  let rows ← ExceptT.adapt (LineError.mk n) (Line.expandTelling line)
  Told.tell .lineExpanded ("Line " ++ Numeral.text n ++ " expanded into " ++
    Numeral.text rows.length ++ " rows")
  return rows

def expandLine (n : Nat) (line : String) : Except LineError (List String) :=
  (expandLineTelling n line).run.result

theorem expandLine_eq (n : Nat) (line : String) :
    expandLine n line = (Line.expand line).mapError (LineError.mk n) := by
  simp only [expandLine, expandLineTelling, Told.result_run_bind, Told.result_run_adapt]
  unfold Line.expand
  cases (Line.expandTelling line).run.result <;> rfl

def expandTelling (policy : Policy) (lines : List String) : Told (Report LineError) := do
  let report ← Report.collectTelling LineError.message policy expandLineTelling
    (Report.empty.push header) 1 lines
  Told.tell .pinfileExpanded ("Expanded pinfile into " ++ Numeral.text report.lines.length ++
    " lines with " ++ Numeral.text report.errors.length ++ " errors")
  return report

def expand (policy : Policy) (lines : List String) : Report LineError :=
  (expandTelling policy lines).result

theorem expand_eq (policy : Policy) (lines : List String) :
    expand policy lines = ⟨[header], []⟩ ++ Report.collect policy expandLine 1 lines := by
  rw [expand, expandTelling, Told.result_bind, Report.result_collectTelling]
  rfl

/-- The whole expansion, or the first error. -/
def expandAll (lines : List String) : Except LineError (List String) :=
  (expand .halt lines).rowsOrFirstError

section Line
variable {n : Nat} {line : String}

theorem expandLine_of_ok {rows : List String} (h : Line.expand line = .ok rows) :
    expandLine n line = .ok rows := by
  rw [expandLine_eq, h]
  rfl

theorem expandLine_of_error {f : LineFault} (h : Line.expand line = .error f) :
    expandLine n line = .error ⟨n, f⟩ := by
  rw [expandLine_eq, h]
  rfl

theorem expandLine_eq_ok_iff {rows : List String} :
    expandLine n line = .ok rows ↔ Line.expand line = .ok rows := by
  cases h : Line.expand line with
  | ok out => rw [expandLine_of_ok h, Except.ok.injEq, Except.ok.injEq]
  | error f => simp [expandLine_of_error h]

theorem expandLine_eq_error_iff {e : LineError} :
    expandLine n line = .error e ↔ Line.expand line = .error e.fault ∧ e.line = n := by
  cases e with
  | mk m f =>
    cases h : Line.expand line with
    | ok out => simp [expandLine_of_ok h]
    | error f => simp [expandLine_of_error h, and_comm, eq_comm]

end Line

end Pinout.Pinfile
