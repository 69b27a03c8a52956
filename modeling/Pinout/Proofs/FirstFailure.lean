import Pinout.Pinfile.Build
import Pinout.Proofs.LineByLine

/-!
Halting against going on. A halted run tells the first error of the run that goes on, and its rows
are those that come before this error.
-/

namespace Pinout.Report

variable {ε : Type}

/-- A halted report next to that of the same work going on: they are the same if nothing fails,
else the halted one has the first error alone and rows of which `Kept` tells more. -/
structure StopsAtFirstError (halted whole : Report ε) (Kept : ε → List String → Prop) : Prop where
  isClean_iff : halted.isClean = true ↔ whole.isClean = true
  eq_of_isClean : whole.isClean = true → halted = whole
  of_errors : ∀ e errors, whole.errors = e :: errors →
    halted.errors = [e] ∧ halted.lines <+: whole.lines ∧ Kept e halted.lines

namespace StopsAtFirstError

variable {halted whole : Report ε} {Kept : ε → List String → Prop}

theorem of_clean (h : whole.errors = []) : StopsAtFirstError whole whole Kept := by
  refine ⟨Iff.rfl, fun _ => rfl, ?_⟩
  intro e errors he
  rw [h] at he
  cases he

theorem of_first {e : ε} {errors : List ε} (hw : whole.errors = e :: errors)
    (hh : halted.errors = [e]) (hl : halted.lines <+: whole.lines) (hk : Kept e halted.lines) :
    StopsAtFirstError halted whole Kept := by
  refine ⟨by simp [isClean, hw, hh], fun h => ?_, ?_⟩
  · simp [isClean, hw] at h
  · intro e' errors' he
    rw [hw] at he
    cases he
    exact ⟨hh, hl, hk⟩

theorem rowsOrFirstError_eq (h : StopsAtFirstError halted whole Kept) :
    halted.rowsOrFirstError = match whole.errors with
      | [] => .ok whole.lines
      | e :: _ => .error e := by
  cases he : whole.errors with
  | nil =>
    rw [h.eq_of_isClean (Report.isClean_iff.mpr he)]
    exact rowsOrFirstError_eq_ok_iff.mpr (rowsOrErrors_eq_ok_iff.mpr ⟨he, rfl⟩)
  | cons e errors =>
    have hhalted := (h.of_errors e errors he).1
    exact rowsOrFirstError_eq_error_iff.mpr
      ⟨[], rowsOrErrors_eq_error_iff.mpr ⟨hhalted, List.cons_ne_nil e []⟩⟩

end StopsAtFirstError

end Pinout.Report

namespace Pinout.Pinfile

open Report

/-- The rows before the first line that does not expand, under the column titles. -/
def ExpandedBefore (lines : List String) (e : LineError) (rows : List String) : Prop :=
  ∃ done line rest outs, lines = done ++ line :: rest ∧
    List.Forall₂ (fun l out => Line.expand l = .ok out) done outs ∧
    Line.expand line = .error e.fault ∧ e.line = done.length + 1 ∧ rows = header :: outs.flatten

/-- The replaced rows before the first line that has no replacement. -/
def LocatedBefore (table : PinTable) (lines : List String) (e : ReplaceError)
    (rows : List String) : Prop :=
  ∃ done line rest, lines = done ++ line :: rest ∧
    List.Forall₂ (fun l row => ∀ n, locateLine table n l = .ok row) done rows ∧
    locateLine table (done.length + 1) line = .error e

/-- No rows if a line of the body does not expand, else the replaced rows before the first row that
has no replacement. -/
inductive BuiltBefore (table : PinTable) (lines : List String) : BuildError → List String → Prop where
  | expansion {e : LineError} {rows : List String} : ExpandedBefore lines e rows →
      BuiltBefore table lines (.expansion e) []
  | replacement {e : ReplaceError} {outs : List (List String)} {rows : List String} :
      List.Forall₂ (fun l out => Line.expand l = .ok out) lines outs →
        LocatedBefore table (header :: outs.flatten) e rows →
          BuiltBefore table lines (.replacement e) rows

theorem expand_of_succeeds {lines : List String} {outs : List (List String)} (policy : Policy)
    (h : Succeeds expandLine 1 lines outs) : expand policy lines = ⟨header :: outs.flatten, []⟩ := by
  rw [expand_eq, collect_of_succeeds policy h]
  rfl

theorem expand_halt_of_failsAfter {lines done : List String} {outs : List (List String)}
    {e : LineError} (h : FailsAfter expandLine 1 lines done outs e) :
    expand .halt lines = ⟨header :: outs.flatten, [e]⟩ := by
  rw [expand_eq, collect_halt_of_failsAfter h]
  rfl

theorem expand_keepGoing_of_failsAfter {lines done : List String} {outs : List (List String)}
    {e : LineError} (h : FailsAfter expandLine 1 lines done outs e) :
    ∃ rows errors, expand .keepGoing lines = ⟨header :: (outs.flatten ++ rows), e :: errors⟩ := by
  obtain ⟨rows, errors, hk⟩ := collect_keepGoing_of_failsAfter h
  refine ⟨rows, errors, ?_⟩
  rw [expand_eq, hk]
  rfl

theorem forall₂_expand {n : Nat} {lines : List String} {outs : List (List String)}
    (h : Succeeds expandLine n lines outs) :
    List.Forall₂ (fun l out => Line.expand l = .ok out) lines outs :=
  h.forall₂ fun _ _ _ hl => expandLine_eq_ok_iff.mp hl

theorem expandedBefore {lines done : List String} {outs : List (List String)} {e : LineError}
    (h : FailsAfter expandLine 1 lines done outs e) :
    ExpandedBefore lines e (header :: outs.flatten) := by
  obtain ⟨hs, line, rest, rfl, hbad⟩ := h
  obtain ⟨hl, hn⟩ := expandLine_eq_error_iff.mp hbad
  exact ⟨done, line, rest, outs, rfl, forall₂_expand hs, hl, by omega, rfl⟩

/-- Every replaced line comes to one row. -/
theorem forall₂_locate {table : PinTable} {n : Nat} {lines : List String}
    {outs : List (List String)} (h : Succeeds (locateRow table) n lines outs) :
    List.Forall₂ (Located table) lines outs.flatten := by
  induction h with
  | nil n => exact .nil
  | cons hl _ ih =>
    obtain ⟨row, hrow, rfl⟩ := locateRow_eq_ok_iff.mp hl
    exact .cons (locateLine_eq_ok_iff.mp hrow) ih

theorem locatedBefore {table : PinTable} {lines done : List String} {outs : List (List String)}
    {e : ReplaceError} (h : FailsAfter (locateRow table) 1 lines done outs e) :
    LocatedBefore table lines e outs.flatten := by
  obtain ⟨hs, line, rest, rfl, hbad⟩ := h
  refine ⟨done, line, rest, rfl, ?_, ?_⟩
  · exact (forall₂_locate hs).imp fun l row hl n => locateLine_eq_ok_iff.mpr hl
  · rw [Nat.add_comm]
    exact locateRow_eq_error_iff.mp hbad

theorem expand_stopsAtFirstError (lines : List String) :
    StopsAtFirstError (expand .halt lines) (expand .keepGoing lines) (ExpandedBefore lines) := by
  rcases succeeds_or_failsAfter expandLine 1 lines with ⟨outs, hs⟩ | ⟨done, outs, e, hf⟩
  · rw [expand_of_succeeds .halt hs, expand_of_succeeds .keepGoing hs]
    exact .of_clean rfl
  · obtain ⟨rows, errors, hk⟩ := expand_keepGoing_of_failsAfter hf
    rw [expand_halt_of_failsAfter hf, hk]
    exact .of_first rfl rfl (List.prefix_append (header :: outs.flatten) rows) (expandedBefore hf)

theorem locate_stopsAtFirstError (table : PinTable) (lines : List String) :
    StopsAtFirstError (locate table .halt lines) (locate table .keepGoing lines)
      (LocatedBefore table lines) := by
  rw [locate_eq, locate_eq]
  rcases succeeds_or_failsAfter (locateRow table) 1 lines with ⟨outs, hs⟩ | ⟨done, outs, e, hf⟩
  · rw [collect_of_succeeds .halt hs, collect_of_succeeds .keepGoing hs]
    exact .of_clean rfl
  · obtain ⟨rows, errors, hk⟩ := collect_keepGoing_of_failsAfter hf
    rw [collect_halt_of_failsAfter hf, hk]
    exact .of_first rfl rfl (List.prefix_append outs.flatten rows) (locatedBefore hf)

/-- Where every line expands, a build under either policy replaces the same rows. -/
theorem build_of_succeeds {table : PinTable} {text : String} {outs : List (List String)}
    (policy : Policy) (h : Succeeds expandLine 1 (body text) outs) :
    build table policy text =
      (locate table policy (header :: outs.flatten)).mapErrors .replacement := by
  rw [build_eq, expand_of_succeeds policy h]
  simp [buildFrom_eq, isClean, mapErrors]

theorem build_stopsAtFirstError (table : PinTable) (text : String) :
    StopsAtFirstError (build table .halt text) (build table .keepGoing text)
      (BuiltBefore table (body text)) := by
  rcases succeeds_or_failsAfter expandLine 1 (body text) with ⟨outs, hs⟩ | ⟨done, outs, e, hf⟩
  · rw [build_of_succeeds .halt hs, build_of_succeeds .keepGoing hs]
    have hl := locate_stopsAtFirstError table (header :: outs.flatten)
    cases he : (locate table .keepGoing (header :: outs.flatten)).errors with
    | nil =>
      rw [hl.eq_of_isClean (Report.isClean_iff.mpr he)]
      exact .of_clean (by simp [mapErrors, he])
    | cons e errors =>
      obtain ⟨hh, hp, hk⟩ := hl.of_errors e errors he
      have hfirst : ((locate table .keepGoing (header :: outs.flatten)).mapErrors
          BuildError.replacement).errors = .replacement e :: errors.map .replacement := by
        simp [mapErrors, he]
      refine .of_first hfirst ?_ hp (.replacement (forall₂_expand hs) hk)
      simp [mapErrors, hh]
  · obtain ⟨rows, errors, hk⟩ := expand_keepGoing_of_failsAfter hf
    rw [build_eq, build_eq, expand_halt_of_failsAfter hf, hk]
    simp only [buildFrom_eq, isClean, Policy.goesOn]
    exact .of_first rfl rfl (List.nil_prefix) (.expansion (expandedBefore hf))

/-- Both policies agree up to the first error, in every stage and in the whole build. -/
theorem halt_keepGoing_agree (table : PinTable) (lines : List String) (text : String) :
    StopsAtFirstError (expand .halt lines) (expand .keepGoing lines) (ExpandedBefore lines) ∧
    StopsAtFirstError (locate table .halt lines) (locate table .keepGoing lines)
      (LocatedBefore table lines) ∧
    StopsAtFirstError (build table .halt text) (build table .keepGoing text)
      (BuiltBefore table (body text)) ∧
    (expandAll lines = match (expand .keepGoing lines).errors with
      | [] => .ok (expand .keepGoing lines).lines
      | e :: _ => .error e) ∧
    (locateAll table lines = match (locate table .keepGoing lines).errors with
      | [] => .ok (locate table .keepGoing lines).lines
      | e :: _ => .error e) := by
  refine ⟨expand_stopsAtFirstError lines, locate_stopsAtFirstError table lines,
    build_stopsAtFirstError table text, ?_, ?_⟩
  · rw [expandAll, (expand_stopsAtFirstError lines).rowsOrFirstError_eq]
    cases (expand .keepGoing lines).errors <;> rfl
  · rw [locateAll, (locate_stopsAtFirstError table lines).rowsOrFirstError_eq]
    cases (locate table .keepGoing lines).errors <;> rfl

end Pinout.Pinfile
