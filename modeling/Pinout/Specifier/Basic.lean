import Pinout.Journal
import Pinout.Specifier.Capture
import Pinout.Specifier.Expand

/-!
Specifiers, as they stand between the brackets of a line. An explicit specifier has its content
from the start, an implicit one once it has been resolved against an explicit sibling.
-/

namespace Pinout

structure Specifier where
  /-- The trimmed text -/
  text : String
  grammar : Grammar
  captures : List String
  content : Option (List Index)
  deriving DecidableEq

namespace Specifier

def family (s : Specifier) : Family := s.grammar.family

def isImplicit (s : Specifier) : Bool := s.family = .implicit

def length? (s : Specifier) : Option Nat := s.content.map List.length

def isResolved (s : Specifier) : Bool := s.content.isSome

def contentOrError (s : Specifier) : Except ResolveError (List Index) :=
  match s.content with
  | some content => .ok content
  | none => .error (.unresolved s.text)

theorem contentOrError_eq_ok_iff {s : Specifier} {content : List Index} :
    s.contentOrError = .ok content ↔ s.content = some content := by
  cases h : s.content <;> simp [contentOrError, h]

def recognize (text : String) : Option (Grammar × List String) :=
  Grammar.all.findSome? fun g => (g.capture text).map (g, ·)

/-- The content that a specifier has on its own. -/
def ownContent (g : Grammar) (captures : List String) :
    Except ResolveError (Option (List Index)) :=
  match g.family with
  | .explicit => (g.expand captures none).map some
  | .implicit => .ok none

def resolveTelling (text : String) : ExceptT ResolveError Told Specifier := do
  let text := Text.trim text
  match recognize text with
  | none => throw (.unrecognized text)
  | some (g, captures) => do
    let content ← liftM (ownContent g captures)
    Told.tell .specifierMatched ("Specifier '" ++ text ++ "' matched " ++ g.name ++
      " with captures " ++ Note.captureList captures)
    return ⟨text, g, captures, content⟩

def resolve (text : String) : Except ResolveError Specifier := (resolveTelling text).run.result

theorem resolve_eq (text : String) :
    resolve text = match recognize (Text.trim text) with
      | none => .error (.unrecognized (Text.trim text))
      | some (g, captures) =>
        (ownContent g captures).map (⟨Text.trim text, g, captures, ·⟩) := by
  simp only [resolve, resolveTelling]
  split
  · rfl
  · simp only [Told.result_run_bind, Told.result_run_ofExcept]
    cases ownContent _ _ <;> rfl

theorem resolve_eq_ok_iff {text : String} {s : Specifier} :
    resolve text = .ok s ↔ ∃ g captures content, recognize (Text.trim text) = some (g, captures) ∧
      ownContent g captures = .ok content ∧ s = ⟨Text.trim text, g, captures, content⟩ := by
  rw [resolve_eq]
  constructor
  · intro h
    split at h
    · cases h
    · rename_i g captures hr
      cases hc : ownContent g captures with
      | error e =>
        rw [hc] at h
        cases h
      | ok content =>
        rw [hc] at h
        cases h
        exact ⟨g, captures, content, hr, hc, rfl⟩
  · intro h
    obtain ⟨g, captures, content, hr, hc, rfl⟩ := h
    rw [hr]
    dsimp only
    rw [hc]
    rfl

/-- Gives an implicit specifier its content. One that has it already stays as it is. -/
def borrowFromTelling (s sibling : Specifier) : ExceptT ResolveError Told Specifier := do
  if !s.isImplicit then throw (.alreadyExplicit s.text)
  else if s.isResolved then return s
  else if sibling.isImplicit then throw (.siblingNotExplicit s.text sibling.text)
  else
    let base ← liftM sibling.contentOrError
    let content ← liftM (s.grammar.expand s.captures (some base))
    Told.tell .specifierResolved ("Resolved " ++ s.grammar.name ++ " specifier '" ++ s.text ++
      "' against '" ++ sibling.text ++ "': " ++ Note.indexList content)
    return { s with content := some content }

def borrowFrom (s sibling : Specifier) : Except ResolveError Specifier :=
  (s.borrowFromTelling sibling).run.result

theorem borrowFrom_eq (s sibling : Specifier) :
    s.borrowFrom sibling =
      if !s.isImplicit then .error (.alreadyExplicit s.text)
      else if s.isResolved then .ok s
      else if sibling.isImplicit then .error (.siblingNotExplicit s.text sibling.text)
      else match sibling.contentOrError with
        | .error e => .error e
        | .ok base =>
          (s.grammar.expand s.captures (some base)).map fun content =>
            { s with content := some content } := by
  unfold borrowFrom borrowFromTelling
  split
  · rfl
  split
  · rfl
  split
  · rfl
  cases sibling.contentOrError with
  | error e => rfl
  | ok base =>
    simp only [Told.result_run_bind, Told.result_run_ofExcept, Except.bind]
    cases s.grammar.expand s.captures (some base) <;> rfl

end Specifier

end Pinout
