import Mathlib.Data.List.Forall2
import Pinout.Report

/-!
Work that goes line by line: where every line comes to rows, the report is these rows in order;
otherwise there is a first line that fails, and the lines before it are worked through alike under
both policies.
-/

namespace Pinout.Report

variable {ε : Type} {work : Nat → String → Except ε (List String)}

/-- All the lines, numbered from `n` on, come to rows. -/
inductive Succeeds (work : Nat → String → Except ε (List String)) :
    Nat → List String → List (List String) → Prop where
  | nil (n : Nat) : Succeeds work n [] []
  | cons {n : Nat} {line : String} {lines rows : List String} {outs : List (List String)} :
      work n line = .ok rows → Succeeds work (n + 1) lines outs →
        Succeeds work n (line :: lines) (rows :: outs)

/-- The lines `done` come to rows, and the line after them fails. -/
structure FailsAfter (work : Nat → String → Except ε (List String)) (n : Nat)
    (lines done : List String) (outs : List (List String)) (e : ε) : Prop where
  succeeds : Succeeds work n done outs
  fails : ∃ line rest, lines = done ++ line :: rest ∧ work (n + done.length) line = .error e

theorem succeeds_or_failsAfter (work : Nat → String → Except ε (List String)) (n : Nat)
    (lines : List String) :
    (∃ outs, Succeeds work n lines outs) ∨
      ∃ done outs e, FailsAfter work n lines done outs e := by
  induction lines generalizing n with
  | nil => exact Or.inl ⟨[], .nil n⟩
  | cons line lines ih =>
    cases h : work n line with
    | error e => exact Or.inr ⟨[], [], e, .nil n, line, lines, rfl, h⟩
    | ok rows =>
      rcases ih (n + 1) with ⟨outs, hs⟩ | ⟨done, outs, e, hs, bad, rest, rfl, hbad⟩
      · exact Or.inl ⟨rows :: outs, .cons h hs⟩
      · refine Or.inr ⟨line :: done, rows :: outs, e, .cons h hs, bad, rest, rfl, ?_⟩
        -- counted from this line, the failing one is one further on
        have hnumber : n + (line :: done).length = n + 1 + done.length := by
          rw [List.length_cons]
          omega
        rw [hnumber]
        exact hbad

theorem Succeeds.forall₂ {n : Nat} {lines : List String} {outs : List (List String)}
    {P : String → List String → Prop} (hs : Succeeds work n lines outs)
    (hP : ∀ m line rows, work m line = .ok rows → P line rows) : List.Forall₂ P lines outs := by
  induction hs with
  | nil n => exact .nil
  | cons h _ ih => exact .cons (hP _ _ _ h) ih

/-- Lines that come to rows are worked through alike under both policies. -/
theorem collect_append_of_succeeds {n : Nat} {done : List String} {outs : List (List String)}
    (policy : Policy) (hs : Succeeds work n done outs) (rest : List String) :
    collect policy work n (done ++ rest) =
      ⟨outs.flatten, []⟩ ++ collect policy work (n + done.length) rest := by
  induction hs with
  | nil n => rfl
  | @cons n line lines rows outs h _ ih =>
    rw [List.cons_append, collect_cons_ok h, ih, ← append_assoc, List.length_cons,
      Nat.add_assoc n 1, Nat.add_comm 1]
    rfl

theorem collect_of_succeeds {n : Nat} {lines : List String} {outs : List (List String)}
    (policy : Policy) (hs : Succeeds work n lines outs) :
    collect policy work n lines = ⟨outs.flatten, []⟩ := by
  have h := collect_append_of_succeeds policy hs []
  rwa [List.append_nil, collect_nil, append_empty] at h

theorem collect_halt_of_failsAfter {n : Nat} {lines done : List String}
    {outs : List (List String)} {e : ε} (hf : FailsAfter work n lines done outs e) :
    collect .halt work n lines = ⟨outs.flatten, [e]⟩ := by
  obtain ⟨hs, line, rest, rfl, hbad⟩ := hf
  rw [collect_append_of_succeeds _ hs, collect_halt_error hbad]
  exact ext_parts (List.append_nil _) rfl

theorem collect_keepGoing_of_failsAfter {n : Nat} {lines done : List String}
    {outs : List (List String)} {e : ε} (hf : FailsAfter work n lines done outs e) :
    ∃ rows errors, collect .keepGoing work n lines = ⟨outs.flatten ++ rows, e :: errors⟩ := by
  obtain ⟨hs, line, rest, rfl, hbad⟩ := hf
  rw [collect_append_of_succeeds _ hs, collect_keepGoing_error hbad]
  exact ⟨_, _, rfl⟩

theorem succeeds_of_isClean {policy : Policy} {n : Nat} {lines : List String}
    (h : (collect policy work n lines).isClean = true) :
    ∃ outs, Succeeds work n lines outs ∧ (collect policy work n lines).lines = outs.flatten := by
  rcases succeeds_or_failsAfter work n lines with ⟨outs, hs⟩ | ⟨done, outs, e, hf⟩
  · exact ⟨outs, hs, by rw [collect_of_succeeds policy hs]⟩
  · rw [isClean_iff] at h
    cases policy with
    | halt => simp [collect_halt_of_failsAfter hf] at h
    | keepGoing =>
      obtain ⟨rows, errors, hk⟩ := collect_keepGoing_of_failsAfter hf
      simp [hk] at h

theorem exists_of_mem_lines {policy : Policy} {n : Nat} {lines : List String} {row : String}
    (h : row ∈ (collect policy work n lines).lines) :
    ∃ m line rows, line ∈ lines ∧ work m line = .ok rows ∧ row ∈ rows := by
  induction lines generalizing n with
  | nil => simp [collect_nil, empty] at h
  | cons line lines ih =>
    have later : row ∈ (collect policy work (n + 1) lines).lines →
        ∃ m l rows, l ∈ line :: lines ∧ work m l = .ok rows ∧ row ∈ rows := by
      intro hr
      obtain ⟨m, l, rows, hl, hw, hm⟩ := ih hr
      exact ⟨m, l, rows, List.mem_cons_of_mem line hl, hw, hm⟩
    cases hw : work n line with
    | ok rows =>
      rw [collect_cons_ok hw, lines_append, List.mem_append] at h
      rcases h with h | h
      · exact ⟨n, line, rows, List.mem_cons_self, hw, h⟩
      · exact later h
    | error e =>
      cases policy with
      | halt => simp [collect_halt_error hw] at h
      | keepGoing =>
        rw [collect_keepGoing_error hw, lines_append, List.nil_append] at h
        exact later h

/-- Every error of a report is that of a line under its own number. -/
theorem exists_of_mem_errors {policy : Policy} {n : Nat} {lines : List String} {e : ε}
    (h : e ∈ (collect policy work n lines).errors) :
    ∃ i line, lines[i]? = some line ∧ work (n + i) line = .error e := by
  induction lines generalizing n with
  | nil => simp [collect_nil, empty] at h
  | cons line lines ih =>
    have later : e ∈ (collect policy work (n + 1) lines).errors →
        ∃ i l, (line :: lines)[i]? = some l ∧ work (n + i) l = .error e := by
      intro he
      obtain ⟨i, l, hl, hw⟩ := ih he
      refine ⟨i + 1, l, by simpa using hl, ?_⟩
      rwa [Nat.add_assoc, Nat.add_comm 1] at hw
    cases hw : work n line with
    | ok rows =>
      rw [collect_cons_ok hw, errors_append, List.nil_append] at h
      exact later h
    | error d =>
      cases policy with
      | halt =>
        rw [collect_halt_error hw, List.mem_singleton] at h
        exact ⟨0, line, rfl, h ▸ hw⟩
      | keepGoing =>
        rw [collect_keepGoing_error hw, errors_append, List.singleton_append,
          List.mem_cons] at h
        rcases h with rfl | h
        · exact ⟨0, line, rfl, hw⟩
        · exact later h

end Pinout.Report
