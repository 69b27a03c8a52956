import Pinout.Pinfile.Expansion
import Pinout.Pinfile.Replacement
import Pinout.Proofs.LineByLine

/-!
Work that goes on after errors keeps exact accounts: every line adds its own rows, or its own error
under its own number, and what it adds does not depend on the other lines.
-/

namespace Pinout

/-- The same error `d` lines further on. -/
def LineError.shift (d : Nat) (e : LineError) : LineError := ⟨e.line + d, e.fault⟩

def ReplaceError.shift (d : Nat) : ReplaceError → ReplaceError
  | unparsable line text => unparsable (line + d) text
  | unknownPin line name => unknownPin (line + d) name

namespace Report

variable {ε : Type} {work : Nat → String → Except ε (List String)} {number : ε → Nat}
  {shift : Nat → ε → ε}

/-- The number of a line shows in its error and nowhere else. -/
structure Numbered (work : Nat → String → Except ε (List String)) (number : ε → Nat)
    (shift : Nat → ε → ε) : Prop where
  number_eq : ∀ n line e, work n line = .error e → number e = n
  work_add : ∀ n d line, work (n + d) line = (work n line).mapError (shift d)

theorem collect_keepGoing_cons (n : Nat) (line : String) (lines : List String) :
    collect .keepGoing work n (line :: lines) =
      ofLine (work n line) ++ collect .keepGoing work (n + 1) lines := by
  simp [collect_cons, Policy.goesOn]

theorem mapErrors_append (f : ε → ε) (r s : Report ε) :
    (r ++ s).mapErrors f = r.mapErrors f ++ s.mapErrors f :=
  ext_parts rfl List.map_append

theorem ofLine_mapError (f : ε → ε) (x : Except ε (List String)) :
    ofLine (x.mapError f) = (ofLine x).mapErrors f := by
  cases x <;> rfl

theorem Numbered.collect_add (h : Numbered work number shift) (n d : Nat) (lines : List String) :
    collect .keepGoing work (n + d) lines =
      (collect .keepGoing work n lines).mapErrors (shift d) := by
  induction lines generalizing n with
  | nil => rfl
  | cons line lines ih =>
    rw [collect_keepGoing_cons, collect_keepGoing_cons, mapErrors_append, h.work_add,
      ofLine_mapError, ← ih (n + 1), Nat.add_right_comm]

/-- A line comes to the same rows under every number. -/
theorem Numbered.lines_ofLine (h : Numbered work number shift) (n m : Nat) (line : String) :
    (ofLine (work n line)).lines = (ofLine (work m line)).lines := by
  have hzero : ∀ k, (ofLine (work k line)).lines = (ofLine (work 0 line)).lines := by
    intro k
    rw [← Nat.zero_add k, h.work_add, ofLine_mapError]
    rfl
  rw [hzero n, hzero m]

theorem Numbered.lines_collect (h : Numbered work number shift) (n m : Nat) (lines : List String) :
    (collect .keepGoing work n lines).lines =
      lines.flatMap fun line => (ofLine (work m line)).lines := by
  induction lines generalizing n with
  | nil => rfl
  | cons line lines ih =>
    rw [collect_keepGoing_cons, lines_append, List.flatMap_cons, ih, h.lines_ofLine n m]

theorem mem_errors_ofLine_iff {x : Except ε (List String)} {e : ε} :
    e ∈ (ofLine x).errors ↔ x = .error e := by
  cases x <;> simp [ofLine, eq_comm]

theorem mem_errors_of_fails {n i : Nat} {lines : List String} {line : String} {e : ε}
    (hi : lines[i]? = some line) (h : work (n + i) line = .error e) :
    e ∈ (collect .keepGoing work n lines).errors := by
  induction lines generalizing n i with
  | nil => simp at hi
  | cons first lines ih =>
    rw [collect_keepGoing_cons, errors_append, List.mem_append]
    cases i with
    | zero =>
      rw [List.getElem?_cons_zero, Option.some.injEq] at hi
      subst hi
      exact Or.inl (mem_errors_ofLine_iff.mpr h)
    | succ i =>
      rw [List.getElem?_cons_succ] at hi
      rw [← Nat.add_assoc, Nat.add_right_comm] at h
      exact Or.inr (ih hi h)

theorem Numbered.mem_errors_iff (h : Numbered work number shift) {n : Nat} {lines : List String}
    {e : ε} : e ∈ (collect .keepGoing work n lines).errors ↔
      ∃ i line, lines[i]? = some line ∧ number e = n + i ∧ work (n + i) line = .error e := by
  constructor
  · intro he
    obtain ⟨i, line, hi, hw⟩ := exists_of_mem_errors he
    exact ⟨i, line, hi, h.number_eq _ _ _ hw, hw⟩
  · rintro ⟨i, line, hi, _, hw⟩
    exact mem_errors_of_fails hi hw

theorem Numbered.number_of_mem (h : Numbered work number shift) {n : Nat} {lines : List String}
    {e : ε} (he : e ∈ (collect .keepGoing work n lines).errors) :
    n ≤ number e ∧ number e < n + lines.length := by
  obtain ⟨i, line, hi, hnumber, _⟩ := h.mem_errors_iff.mp he
  have hlt : i < lines.length := (List.getElem?_eq_some_iff.mp hi).1
  omega

theorem Numbered.pairwise_number (h : Numbered work number shift) (n : Nat) (lines : List String) :
    ((collect .keepGoing work n lines).errors.map number).Pairwise (· < ·) := by
  induction lines generalizing n with
  | nil => exact .nil
  | cons line lines ih =>
    rw [collect_keepGoing_cons, errors_append, List.map_append]
    cases hw : work n line with
    | ok rows => exact ih (n + 1)
    | error e =>
      apply List.pairwise_cons.mpr
      refine ⟨?_, ih (n + 1)⟩
      intro k hk
      obtain ⟨later, hlater, rfl⟩ := List.mem_map.mp hk
      -- the error of this line has its number, and all others come after it
      have hfirst : number e = n := h.number_eq n line e hw
      have hbound := (h.number_of_mem hlater).1
      omega

/-- Lines from the first on are accounted for one by one, below `titles`; `alone` is what becomes of
a line with a number. -/
structure ExactAccounts (titles : List String) (number : ε → Nat) (shift : Nat → ε → ε)
    (alone : Nat → String → Except ε (List String)) (report : List String → Report ε) : Prop where
  lines_append : ∀ xs ys,
    (report (xs ++ ys)).lines = (report xs).lines ++ (report ys).lines.drop titles.length
  errors_append : ∀ xs ys,
    (report (xs ++ ys)).errors = (report xs).errors ++ (report ys).errors.map (shift xs.length)
  increasing : ∀ lines, ((report lines).errors.map number).Pairwise (· < ·)
  in_range : ∀ lines, ∀ e ∈ (report lines).errors, 1 ≤ number e ∧ number e ≤ lines.length
  mem_errors_iff : ∀ lines e, e ∈ (report lines).errors ↔
    ∃ k line, lines[k]? = some line ∧ number e = k + 1 ∧ alone (k + 1) line = .error e
  own_rows : ∀ n lines,
    (report lines).lines = titles ++ lines.flatMap fun line => (ofLine (alone n line)).lines
  one_line : ∀ xs ys, ∃ after, ∀ line,
    report (xs ++ line :: ys) = report xs ++ ofLine (alone (xs.length + 1) line) ++ after

theorem Numbered.exactAccounts (h : Numbered work number shift) (titles : List String) :
    ExactAccounts titles number shift work
      fun lines => ⟨titles, []⟩ ++ collect .keepGoing work 1 lines where
  lines_append xs ys := by
    rw [collect_append, h.collect_add 1 xs.length ys]
    simp [mapErrors]
  errors_append xs ys := by
    rw [collect_append, h.collect_add 1 xs.length ys]
    simp [mapErrors]
  increasing lines := h.pairwise_number 1 lines
  in_range lines e he := by
    obtain ⟨hlow, hhigh⟩ := h.number_of_mem he
    omega
  mem_errors_iff lines e := by
    simp only [Nat.add_comm _ 1]
    exact h.mem_errors_iff
  own_rows n lines := congrArg (titles ++ ·) (h.lines_collect 1 n lines)
  one_line xs ys := by
    refine ⟨collect .keepGoing work (1 + xs.length + 1) ys, fun line => ?_⟩
    rw [collect_append, collect_keepGoing_cons, append_assoc, append_assoc, Nat.add_comm 1]

end Report

namespace Pinfile

open Report

theorem numbered_expandLine : Numbered expandLine LineError.line LineError.shift where
  number_eq _ _ _ h := (expandLine_eq_error_iff.mp h).2
  work_add n d line := by
    cases h : Line.expand line with
    | ok rows =>
      rw [expandLine_of_ok h, expandLine_of_ok h]
      rfl
    | error f =>
      rw [expandLine_of_error h, expandLine_of_error h]
      rfl

theorem numbered_locateRow (table : PinTable) :
    Numbered (locateRow table) ReplaceError.line ReplaceError.shift where
  number_eq n line e h := by
    rcases locateLine_error_cases (locateRow_eq_error_iff.mp h) with
      ⟨_, _, rfl⟩ | ⟨_, _, _, _, rfl⟩
    · rfl
    · rfl
  work_add n d line := by
    rw [locateRow_eq, locateRow_eq, locateLine_eq, locateLine_eq]
    split
    · rfl
    · split
      · rfl
      · split
        · rfl
        · split <;> rfl

/-- Going on after errors, expansion and replacement keep exact accounts of their lines. -/
theorem keepGoing_exactAccounts (table : PinTable) :
    ExactAccounts [header] LineError.line LineError.shift expandLine (expand .keepGoing) ∧
    ExactAccounts [] ReplaceError.line ReplaceError.shift (locateRow table)
      (locate table .keepGoing) := by
  have hexpand := funext (expand_eq .keepGoing)
  have hlocate := funext (locate_eq table .keepGoing)
  rw [hexpand, hlocate]
  exact ⟨numbered_expandLine.exactAccounts [header], (numbered_locateRow table).exactAccounts []⟩

example : expand .keepGoing ["?", "a[0..1], b[..]", "c[", "d[1:1..0], e[..]", "f, g"] =
    ⟨["To, Location", "a[0], b[0]", "a[1], b[1]", "f, g"],
      [⟨1, .unparsable "?"⟩, ⟨3, .unparsable "c["⟩]⟩ := by
  decide +kernel

end Pinfile

end Pinout
