import Pinout.Journal

/-!
The outcome of work that goes line by line: the rows that came out and the errors met on the way.
The policy decides whether work goes on after an error.
-/

namespace Pinout

inductive Policy
  | halt
  | keepGoing
  deriving DecidableEq

instance : Inhabited Policy := ⟨.halt⟩

def Policy.goesOn : Policy → Bool
  | halt => false
  | keepGoing => true

structure Report (ε : Type) where
  lines : List String
  errors : List ε
  deriving DecidableEq

namespace Report

def empty : Report ε := ⟨[], []⟩

def isClean (r : Report ε) : Bool := r.errors.isEmpty

def extend (r : Report ε) (rows : List String) : Report ε := ⟨r.lines ++ rows, r.errors⟩

def push (r : Report ε) (line : String) : Report ε := r.extend [line]

/-- Adds an error; the answer is whether work goes on. -/
def addError (r : Report ε) (e : ε) (policy : Policy) : Report ε × Bool :=
  (⟨r.lines, r.errors ++ [e]⟩, policy.goesOn)

/-- Adds an error and tells its message. -/
def addErrorTelling (message : ε → String) (r : Report ε) (e : ε) (policy : Policy) :
    Told (Report ε × Bool) := do
  Told.tell .errorMet (message e)
  return r.addError e policy

def rowsOrErrors (r : Report ε) : Except (List ε) (List String) :=
  if r.isClean then .ok r.lines else .error r.errors

def rowsOrFirstError (r : Report ε) : Except ε (List String) :=
  match r.errors with
  | [] => .ok r.lines
  | e :: _ => .error e

def mapErrors (f : ε → δ) (r : Report ε) : Report δ := ⟨r.lines, r.errors.map f⟩

def append (r s : Report ε) : Report ε := ⟨r.lines ++ s.lines, r.errors ++ s.errors⟩

instance : Append (Report ε) := ⟨append⟩

/-- What one line comes to, be it rows or an error. -/
def ofLine : Except ε (List String) → Report ε
  | .ok rows => ⟨rows, []⟩
  | .error e => ⟨[], [e]⟩

theorem rowsOrErrors_eq_ok_iff {r : Report ε} {rows : List String} :
    r.rowsOrErrors = .ok rows ↔ r.errors = [] ∧ r.lines = rows := by
  cases h : r.errors <;> simp [rowsOrErrors, isClean, h]

theorem rowsOrErrors_eq_error_iff {r : Report ε} {errors : List ε} :
    r.rowsOrErrors = .error errors ↔ r.errors = errors ∧ errors ≠ [] := by
  cases h : r.errors with
  | nil =>
    simp only [rowsOrErrors, isClean, h, List.isEmpty_nil, ↓reduceIte, reduceCtorEq, false_iff]
    exact fun hnil => hnil.2 hnil.1.symm
  | cons e rest =>
    simp only [rowsOrErrors, isClean, h, List.isEmpty_cons, Bool.false_eq_true, ↓reduceIte,
      Except.error.injEq]
    exact ⟨fun he => ⟨he, he ▸ List.cons_ne_nil e rest⟩, And.left⟩

theorem rowsOrFirstError_eq_ok_iff {r : Report ε} {rows : List String} :
    r.rowsOrFirstError = .ok rows ↔ r.rowsOrErrors = .ok rows := by
  cases h : r.errors <;> simp [rowsOrFirstError, rowsOrErrors, isClean, h]

/-- The first of the errors stands for all of them. -/
theorem rowsOrFirstError_eq_error_iff {r : Report ε} {e : ε} :
    r.rowsOrFirstError = .error e ↔ ∃ rest, r.rowsOrErrors = .error (e :: rest) := by
  cases h : r.errors <;> simp [rowsOrFirstError, rowsOrErrors, isClean, h]

/-- Works through lines that are numbered from `n` on and adds what they come to. -/
def collectTelling (message : ε → String) (policy : Policy)
    (work : Nat → String → ExceptT ε Told (List String)) (r : Report ε) (n : Nat) :
    List String → Told (Report ε)
  | [] => return r
  | line :: rest => do
    match ← (work n line).run with
    | .ok rows => collectTelling message policy work (r.extend rows) (n + 1) rest
    | .error e => do
      let (r, goesOn) ← r.addErrorTelling message e policy
      if goesOn then collectTelling message policy work r (n + 1) rest else return r

/-- Work that tells nothing. -/
def quiet (work : Nat → String → Except ε (List String)) (n : Nat) (line : String) :
    ExceptT ε Told (List String) :=
  liftM (work n line)

/-- The report on lines that are numbered from `n` on. -/
def collect (policy : Policy) (work : Nat → String → Except ε (List String)) (n : Nat)
    (lines : List String) : Report ε :=
  (collectTelling (fun _ => "") policy (quiet work) empty n lines).result

@[simp] theorem lines_append (r s : Report ε) : (r ++ s).lines = r.lines ++ s.lines := rfl

@[simp] theorem errors_append (r s : Report ε) : (r ++ s).errors = r.errors ++ s.errors := rfl

theorem ext_parts {r s : Report ε} (hl : r.lines = s.lines) (he : r.errors = s.errors) : r = s := by
  cases r
  cases s
  simp_all

theorem append_assoc (r s t : Report ε) : r ++ s ++ t = r ++ (s ++ t) :=
  ext_parts (List.append_assoc ..) (List.append_assoc ..)

theorem append_empty (r : Report ε) : r ++ empty = r :=
  ext_parts (List.append_nil _) (List.append_nil _)

theorem isClean_iff {r : Report ε} : r.isClean = true ↔ r.errors = [] :=
  List.isEmpty_iff

theorem empty_append (r : Report ε) : empty ++ r = r :=
  ext_parts (List.nil_append _) (List.nil_append _)

@[simp] theorem result_quiet (work : Nat → String → Except ε (List String)) (n : Nat)
    (line : String) : (quiet work n line).run.result = work n line := rfl

section Collect
variable {message : ε → String} {policy : Policy} {n : Nat} {line : String}
  {rest rows : List String} {e : ε}

section Telling
variable {tells : Nat → String → ExceptT ε Told (List String)}

theorem collectTelling_cons_ok (r : Report ε) (h : (tells n line).run.result = .ok rows) :
    (collectTelling message policy tells r n (line :: rest)).result =
      (collectTelling message policy tells (r ++ ⟨rows, []⟩) (n + 1) rest).result := by
  have hr : r.extend rows = r ++ ⟨rows, []⟩ := ext_parts rfl (List.append_nil _).symm
  rw [collectTelling, Told.result_bind, h, ← hr]

theorem collectTelling_cons_error (r : Report ε) (h : (tells n line).run.result = .error e) :
    (collectTelling message policy tells r n (line :: rest)).result =
      if policy.goesOn then
        (collectTelling message policy tells (r ++ ⟨[], [e]⟩) (n + 1) rest).result
      else r ++ ⟨[], [e]⟩ := by
  have hr : r.addError e policy = (r ++ ⟨[], [e]⟩, policy.goesOn) :=
    Prod.ext (ext_parts (List.append_nil _).symm rfl) rfl
  rw [collectTelling, Told.result_bind, h]
  simp only [Told.result_bind, addErrorTelling, Told.result_pure, hr]
  cases policy.goesOn <;> rfl

/-- What was there before the work stays in front, and what is told on the way does not count. -/
theorem collectTelling_append (r s : Report ε) (n : Nat) (lines : List String) :
    (collectTelling message policy tells (r ++ s) n lines).result =
      r ++ (collectTelling (fun _ => "") policy (quiet fun n line => (tells n line).run.result) s n
        lines).result := by
  induction lines generalizing s n with
  | nil => rfl
  | cons line rest ih =>
    -- telling and quiet work come to the same on this line, and both go on or stop after it
    have hquiet := result_quiet (fun n line => (tells n line).run.result) n line
    cases h : (tells n line).run.result with
    | ok rows =>
      rw [collectTelling_cons_ok _ h, collectTelling_cons_ok s (hquiet.trans h), append_assoc, ih]
    | error e =>
      rw [collectTelling_cons_error _ h, collectTelling_cons_error s (hquiet.trans h),
        append_assoc, ih]
      split <;> rfl

theorem result_collectTelling (r : Report ε) (n : Nat) (lines : List String) :
    (collectTelling message policy tells r n lines).result =
      r ++ collect policy (fun n line => (tells n line).run.result) n lines := by
  rw [collect, ← collectTelling_append, append_empty]

end Telling

variable {work : Nat → String → Except ε (List String)}

theorem collect_nil : collect policy work n [] = empty := rfl

theorem collect_cons (policy : Policy) (work : Nat → String → Except ε (List String)) (n : Nat)
    (line : String) (rest : List String) :
    collect policy work n (line :: rest) =
      let here := ofLine (work n line)
      if here.isClean || policy.goesOn then here ++ collect policy work (n + 1) rest else here := by
  have hquiet := result_quiet work n line
  cases h : work n line with
  | ok rows =>
    rw [collect, collectTelling_cons_ok _ (hquiet.trans h), result_collectTelling, empty_append]
    simp [ofLine, isClean]
  | error e =>
    rw [collect, collectTelling_cons_error _ (hquiet.trans h), result_collectTelling, empty_append]
    simp [ofLine, isClean]

theorem collect_cons_ok (h : work n line = .ok rows) (rest : List String) :
    collect policy work n (line :: rest) = ⟨rows, []⟩ ++ collect policy work (n + 1) rest := by
  simp [collect_cons, h, ofLine, isClean]

theorem collect_halt_error (h : work n line = .error e) (rest : List String) :
    collect .halt work n (line :: rest) = ⟨[], [e]⟩ := by
  simp [collect_cons, h, ofLine, isClean, Policy.goesOn]

theorem collect_keepGoing_error (h : work n line = .error e) (rest : List String) :
    collect .keepGoing work n (line :: rest) =
      ⟨[], [e]⟩ ++ collect .keepGoing work (n + 1) rest := by
  simp [collect_cons, h, ofLine, Policy.goesOn]

end Collect

/-- Under the policy of going on, the reports of the single lines follow one another. -/
theorem collect_append (work : Nat → String → Except ε (List String)) (xs ys : List String)
    (n : Nat) :
    collect .keepGoing work n (xs ++ ys) =
      collect .keepGoing work n xs ++ collect .keepGoing work (n + xs.length) ys := by
  induction xs generalizing n with
  | nil => exact (empty_append _).symm
  | cons x xs ih =>
    simp only [List.cons_append, collect_cons, Policy.goesOn, Bool.or_true, ↓reduceIte,
      List.length_cons]
    rw [ih, append_assoc]
    congr 3
    omega

end Report

end Pinout
