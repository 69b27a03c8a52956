import Pinout.Line.Binding
import Pinout.Line.Pattern

/-!
The lines of a pinfile and the rows that each of them yields.
-/

namespace Pinout

inductive Line
  | binding (b : Binding)
  /-- Two names without specifiers, kept as they are -/
  | basic (text : String)
  /-- White space only, kept as it is -/
  | blank (text : String)
  deriving DecidableEq

namespace Line

def trimmed (cs : List Char) : String := String.ofList (Text.trimChars cs)

def side (b : Pattern.Bracketed) : Side := ⟨trimmed b.name, trimmed b.inner⟩

def classify (text : String) : Except LineFault Line :=
  match Pattern.binding? text.toList with
  | some m => .ok (.binding ⟨side m.left, side m.right⟩)
  | none =>
    if (Pattern.names? text.toList).isSome then .ok (.basic text)
    else if Text.isBlank text then .ok (.blank text)
    else .error (.unparsable text)

def rowsTelling : Line → ExceptT LineFault Told (List String)
  | binding b => b.expandTelling
  | basic text | blank text => return [text]

def rows (line : Line) : Except LineFault (List String) := line.rowsTelling.run.result

def expandTelling (text : String) : ExceptT LineFault Told (List String) := do
  let line ← liftM (classify text)
  line.rowsTelling

def expand (text : String) : Except LineFault (List String) := (expandTelling text).run.result

theorem expand_eq (text : String) : expand text = (classify text).bind rows := by
  simp only [expand, expandTelling, Told.result_run_bind, Told.result_run_ofExcept]
  rfl

theorem classify_cases {text : String} {line : Line} (h : classify text = .ok line) :
    (∃ m, Pattern.binding? text.toList = some m ∧ line = .binding ⟨side m.left, side m.right⟩) ∨
    (Pattern.binding? text.toList = none ∧ (Pattern.names? text.toList).isSome = true ∧
      line = .basic text) ∨
    (Pattern.binding? text.toList = none ∧ Text.isBlank text = true ∧ line = .blank text) := by
  unfold classify at h
  split at h
  · rename_i m hm
    cases h
    exact Or.inl ⟨m, hm, rfl⟩
  · rename_i hm
    split at h
    · rename_i hn
      cases h
      exact Or.inr (Or.inl ⟨hm, hn, rfl⟩)
    · split at h
      · rename_i hb
        cases h
        exact Or.inr (Or.inr ⟨hm, hb, rfl⟩)
      · cases h

theorem expand_eq_ok_iff {text : String} {out : List String} :
    expand text = .ok out ↔ ∃ line, classify text = .ok line ∧ line.rows = .ok out := by
  cases h : classify text <;> simp [expand_eq, h, Except.bind]

end Line

end Pinout
