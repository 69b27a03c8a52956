import Pinout.Line.Error
import Pinout.Specifier.Basic

/-!
Bindings of one name with a specifier to another. Both specifiers are resolved, an implicit one
against the other, and their contents are paired index by index.
-/

namespace Pinout

structure Side where
  name : String
  specifier : String
  deriving DecidableEq

structure Binding where
  left : Side
  right : Side
  deriving DecidableEq

namespace Binding

/-- Reports an error together with the text it is about. -/
def blame (culprit : String) : Except ResolveError α → Except LineFault α
  | .ok a => .ok a
  | .error e => .error (.specifier culprit e)

theorem blame_eq_ok_iff {α : Type} {culprit : String} {x : Except ResolveError α} {a : α} :
    blame culprit x = .ok a ↔ x = .ok a := by
  cases x <;> simp [blame]

def blameTelling (culprit : String) (x : ExceptT ResolveError Told α) : ExceptT LineFault Told α :=
  ExceptT.mk (blame culprit <$> x.run)

@[simp] theorem result_run_blameTelling {α : Type} (culprit : String)
    (x : ExceptT ResolveError Told α) :
    (blameTelling culprit x).run.result = blame culprit x.run.result := rfl

/-- Gives the implicit one of two specifiers its content; two of them have nothing to go by. -/
def settleTelling (left right : Specifier) : ExceptT LineFault Told (Specifier × Specifier) :=
  match left.family, right.family with
  | .implicit, .implicit => throw (.twoImplicit left.text right.text)
  | .implicit, .explicit => do
    return (← blameTelling left.text (left.borrowFromTelling right), right)
  | .explicit, .implicit => do
    return (left, ← blameTelling right.text (right.borrowFromTelling left))
  | .explicit, .explicit => return (left, right)

def settle (left right : Specifier) : Except LineFault (Specifier × Specifier) :=
  (settleTelling left right).run.result

theorem settle_eq (left right : Specifier) :
    settle left right = match left.family, right.family with
      | .implicit, .implicit => .error (.twoImplicit left.text right.text)
      | .implicit, .explicit => (blame left.text (left.borrowFrom right)).map (·, right)
      | .explicit, .implicit => (blame right.text (right.borrowFrom left)).map (left, ·)
      | .explicit, .explicit => .ok (left, right) := by
  unfold settle settleTelling
  split
  · rfl
  · rw [Told.result_run_bind]
    rfl
  · rw [Told.result_run_bind]
    rfl
  · rfl

def resolveTelling (b : Binding) : ExceptT LineFault Told (Specifier × Specifier) := do
  let left ← blameTelling b.left.specifier (Specifier.resolveTelling b.left.specifier)
  let right ← blameTelling b.right.specifier (Specifier.resolveTelling b.right.specifier)
  settleTelling left right

def resolve (b : Binding) : Except LineFault (Specifier × Specifier) := b.resolveTelling.run.result

theorem resolve_eq (b : Binding) :
    b.resolve = (do
      let left ← blame b.left.specifier (Specifier.resolve b.left.specifier)
      let right ← blame b.right.specifier (Specifier.resolve b.right.specifier)
      settle left right) := by
  simp only [resolve, resolveTelling, Told.result_run_bind, result_run_blameTelling]
  rfl

def cell (name : String) (i : Index) : String := name ++ "[" ++ i.text ++ "]"

def row (b : Binding) (i j : Index) : String := cell b.left.name i ++ ", " ++ cell b.right.name j

/-- One row for each pair of indices. -/
def expandTelling (b : Binding) : ExceptT LineFault Told (List String) := do
  let (left, right) ← b.resolveTelling
  let is ← liftM (blame left.text left.contentOrError)
  let js ← liftM (blame right.text right.contentOrError)
  if is.length = js.length then return List.zipWith b.row is js
  else throw (.lengthMismatch left.text is.length right.text js.length)

def expand (b : Binding) : Except LineFault (List String) := b.expandTelling.run.result

theorem expand_eq (b : Binding) :
    b.expand = (do
      let (left, right) ← b.resolve
      let is ← blame left.text left.contentOrError
      let js ← blame right.text right.contentOrError
      if is.length = js.length then return List.zipWith b.row is js
      else throw (.lengthMismatch left.text is.length right.text js.length)) := by
  simp only [expand, expandTelling, Told.result_run_bind, Told.result_run_ofExcept, resolve]
  congr
  funext sides
  congr
  funext is
  congr
  funext js
  split <;> rfl

/-- Both specifiers of the binding, resolved against each other, have a content. -/
def Contents (b : Binding) (is js : List Index) : Prop :=
  ∃ left right, b.resolve = .ok (left, right) ∧ left.content = some is ∧ right.content = some js

theorem expand_eq_ok_iff {b : Binding} {rows : List String} :
    b.expand = .ok rows ↔
      ∃ is js, b.Contents is js ∧ is.length = js.length ∧ rows = List.zipWith b.row is js := by
  constructor
  · intro h
    cases hr : b.resolve with
    | error e => simp [expand_eq, hr, bind, Except.bind] at h
    | ok sides =>
      obtain ⟨left, right⟩ := sides
      simp only [expand_eq, hr, bind, Except.bind] at h
      cases hl : blame left.text left.contentOrError with
      | error e => simp [hl] at h
      | ok is =>
        cases hj : blame right.text right.contentOrError with
        | error e => simp [hl, hj] at h
        | ok js =>
          simp only [hl, hj] at h
          rw [blame_eq_ok_iff, Specifier.contentOrError_eq_ok_iff] at hl hj
          split at h
          · rename_i hlen
            cases h
            exact ⟨is, js, ⟨left, right, hr, hl, hj⟩, hlen, rfl⟩
          · cases h
  · rintro ⟨is, js, ⟨left, right, hr, hl, hj⟩, hlen, rfl⟩
    rw [← Specifier.contentOrError_eq_ok_iff] at hl hj
    simp [expand_eq, hr, hl, hj, blame, bind, Except.bind, hlen, pure, Except.pure]

def swap (b : Binding) : Binding := ⟨b.right, b.left⟩

end Binding

end Pinout
