import Pinout.Proofs.FinishedPinfile
import Pinout.Proofs.LineAccounts

/-!
Which specifiers are left after an expansion. A printed row has indices in all its brackets; a line
that is no binding is copied with the brackets that it has, and this takes two names around a comma.
-/

namespace Pinout

namespace Pattern

/-- The text goes on with one index and a closing bracket. -/
def IndexCloses (rest : List Char) : Prop :=
  ∃ (i : Index) (after : List Char), rest = i.text.toList ++ ']' :: after

theorem IndexCloses.append {rest : List Char} (h : IndexCloses rest) (more : List Char) :
    IndexCloses (rest ++ more) := by
  obtain ⟨i, after, rfl⟩ := h
  exact ⟨i, after ++ more, by simp⟩

/-- All that comes before the closing bracket is the index. -/
theorem IndexCloses.isDigit {rest : List Char} (h : IndexCloses rest) :
    ∀ c ∈ rest.takeWhile (· != ']'), c.isDigit = true := by
  obtain ⟨i, after, rfl⟩ := h
  have hopen : ∀ c ∈ i.text.toList, (c != ']') = true := by
    intro c hc
    have hne : c ≠ ']' := fun he => absurd (Index.isDigit_of_mem_text hc) (by simp [he])
    simpa using hne
  rw [takeWhile_append_of_ends hopen (.cons (by decide) after)]
  exact fun c hc => Index.isDigit_of_mem_text hc

/-- Every bracket that directly follows a name holds one index and is closed. -/
def Indexed (row : List Char) : Prop :=
  ∀ (before : List Char) (name : String) (rest : List Char), IsName name →
    row = before ++ name.toList ++ '[' :: rest → IndexCloses rest

/-- Every opening bracket holds one index and is closed, whatever it follows. -/
def AllIndexed (cs : List Char) : Prop :=
  ∀ before rest, cs = before ++ '[' :: rest → IndexCloses rest

theorem AllIndexed.indexed {row : List Char} (h : AllIndexed row) : Indexed row :=
  fun before name rest _ hrow => h (before ++ name.toList) rest hrow

theorem AllIndexed.of_not_mem {cs : List Char} (h : '[' ∉ cs) : AllIndexed cs := by
  rintro before rest rfl
  simp at h

theorem AllIndexed.append {a b : List Char} (ha : AllIndexed a) (hb : AllIndexed b) :
    AllIndexed (a ++ b) := by
  intro before rest h
  rcases List.append_eq_append_iff.mp h with ⟨e, rfl, hbe⟩ | ⟨e, rfl, he⟩
  · exact hb e rest hbe
  · cases e with
    | nil => exact hb [] rest he.symm
    | cons c e =>
      rw [List.cons_append, List.cons.injEq] at he
      obtain ⟨rfl, rfl⟩ := he
      exact (ha before e rfl).append b

end Pattern

namespace Binding

open Pattern

theorem allIndexed_cell {name : String} (h : IsName name) (i : Index) :
    AllIndexed (cell name i).toList := by
  have hname : '[' ∉ name.toList := fun hmem => absurd (h.isWord '[' hmem) (by decide)
  have hindex : '[' ∉ i.text.toList ++ [']'] := by
    rw [List.mem_append, not_or]
    exact ⟨fun hmem => absurd (Index.isWord_of_mem_text hmem) (by decide), by decide⟩
  have hbracket : AllIndexed ('[' :: (i.text.toList ++ [']'])) := by
    intro before rest he
    cases before with
    | nil =>
      rw [List.nil_append, List.cons.injEq] at he
      exact ⟨i, [], he.2.symm⟩
    | cons c before =>
      rw [List.cons_append, List.cons.injEq] at he
      rw [he.2] at hindex
      simp at hindex
  have hall := (AllIndexed.of_not_mem hname).append hbracket
  simpa [toList_cell, indexed, Bracketed.chars] using hall

theorem indexed_row {b : Binding} (hl : IsName b.left.name) (hr : IsName b.right.name)
    (i j : Index) : Indexed (b.row i j).toList := by
  have hcomma : AllIndexed [',', ' '] := .of_not_mem (by decide)
  have hall := ((allIndexed_cell hl i).append hcomma).append (allIndexed_cell hr j)
  rw [toList_row]
  simpa using hall.indexed

end Binding

open Pattern

/-- What a line leaves in the expansion: rows with indices only, or the line itself if it is no
binding but is blank or has two names. -/
inductive Leaves (line : String) : List String → Prop where
  | rows {rows : List String} : HasBinding line.toList → (∀ row ∈ rows, Indexed row.toList) →
      Leaves line rows
  | copy : ¬HasBinding line.toList → (Text.isBlank line = true ∨ HasNames line.toList) →
      Leaves line [line]

namespace Line

theorem leaves_of_expand {line : String} {rows : List String} (h : expand line = .ok rows) :
    Leaves line rows := by
  obtain ⟨shape, hc, hrows⟩ := expand_eq_ok_iff.mp h
  rcases classify_cases hc with ⟨m, hm, rfl⟩ | ⟨hm, hn, rfl⟩ | ⟨hm, hb, rfl⟩
  · apply Leaves.rows
    · exact binding?_isSome_iff.mp (Option.isSome_of_eq_some hm)
    · intro row hrow
      obtain ⟨hl, hr⟩ := isName_of_classify hc
      obtain ⟨i, j, rfl⟩ := Binding.exists_of_mem_expand hrows hrow
      exact Binding.indexed_row hl hr i j
  · cases hrows
    exact .copy (binding?_eq_none_iff.mp hm) (Or.inr (names?_isSome_iff.mp hn))
  · cases hrows
    exact .copy (binding?_eq_none_iff.mp hm) (Or.inl hb)

theorem expand_eq_unparsable {line : String} (hb : ¬HasBinding line.toList)
    (hn : ¬HasNames line.toList) (hs : Text.isBlank line = false) :
    expand line = .error (.unparsable line) := by
  rw [← names?_isSome_iff] at hn
  simp [expand_eq, classify, binding?_eq_none_iff.mpr hb, hn, hs, Except.bind]

end Line

namespace Pinfile

open Report

theorem expand_of_expandAll {lines rows : List String} (h : expandAll lines = .ok rows) :
    (expand .halt lines).isClean = true ∧ (expand .halt lines).lines = rows := by
  have hrows := rowsOrErrors_eq_ok_iff.mp (rowsOrFirstError_eq_ok_iff.mp h)
  exact ⟨Report.isClean_iff.mpr hrows.1, hrows.2⟩

theorem exists_error_of_mem {lines : List String} {e : LineError}
    (h : e ∈ (expand .keepGoing lines).errors) : ∃ first, expandAll lines = .error first := by
  rw [expandAll, (expand_stopsAtFirstError lines).rowsOrFirstError_eq]
  cases he : (expand .keepGoing lines).errors with
  | nil =>
    rw [he] at h
    cases h
  | cons first errors => exact ⟨first, rfl⟩

/-- After a successful expansion only the lines that are copied may hold specifiers; a line that is
neither a binding nor copied is an error. -/
theorem expandAll_leaves (lines : List String) :
    (∀ rows, expandAll lines = .ok rows →
      ∃ outs, List.Forall₂ Leaves lines outs ∧ rows = header :: outs.flatten) ∧
    (∀ k line, lines[k]? = some line → ¬HasBinding line.toList → ¬HasNames line.toList →
      Text.isBlank line = false →
        ⟨k + 1, .unparsable line⟩ ∈ (expand .keepGoing lines).errors ∧
        ∃ first, expandAll lines = .error first) := by
  constructor
  · intro rows h
    obtain ⟨hclean, rfl⟩ := expand_of_expandAll h
    obtain ⟨outs, hs⟩ := succeeds_of_expand_isClean hclean
    refine ⟨outs, ?_, ?_⟩
    · exact (forall₂_expand hs).imp fun line rows hline => Line.leaves_of_expand hline
    · rw [expand_of_succeeds .halt hs]
  · intro k line hk hb hn hs
    have hfail : expandLine (1 + k) line = .error ⟨k + 1, .unparsable line⟩ :=
      expandLine_eq_error_iff.mpr ⟨Line.expand_eq_unparsable hb hn hs, Nat.add_comm k 1⟩
    have hmem : ⟨k + 1, .unparsable line⟩ ∈ (expand .keepGoing lines).errors := by
      rw [expand_eq, errors_append]
      exact List.mem_append_right [] (mem_errors_of_fails hk hfail)
    exact ⟨hmem, exists_error_of_mem hmem⟩

theorem expandAll_leaves_one_sided :
    (∃ outs, List.Forall₂ Leaves ["c[0..1], d[5..#]", "a, b[0..1]", " "] outs ∧
      ["To, Location", "c[0], d[5]", "c[1], d[6]", "a, b[0..1]", " "] = header :: outs.flatten) ∧
    (⟨2, .unparsable "a[0..1], b"⟩ ∈ (expand .keepGoing ["a, b[0..1]", "a[0..1], b"]).errors ∧
      ∃ first, expandAll ["a, b[0..1]", "a[0..1], b"] = .error first) := by
  constructor
  · exact (expandAll_leaves _).1 _ (by decide +kernel)
  · exact (expandAll_leaves _).2 1 "a[0..1], b" rfl (by decide +kernel) (by decide +kernel)
      (by decide +kernel)

/-- The pattern of two names matches beside a bracket, so a specifier on the right side alone is
copied. -/
theorem one_sided_specifier_survives :
    expandAll ["a, b[0..1]"] = .ok ["To, Location", "a, b[0..1]"] ∧
    ¬Indexed "a, b[0..1]".toList ∧
    ¬∀ lines rows, expandAll lines = .ok rows → ∀ row ∈ rows.tail, Indexed row.toList := by
  have hcopy : expandAll ["a, b[0..1]"] = .ok ["To, Location", "a, b[0..1]"] := by
    decide +kernel
  have hnot : ¬Indexed "a, b[0..1]".toList := by
    intro h
    have hname : IsName "b" := ⟨by decide, List.forall_mem_singleton.mpr (by decide)⟩
    have hcloses : IndexCloses "0..1]".toList := h "a, ".toList "b" _ hname (by decide)
    have hdot : '.' ∈ "0..1]".toList.takeWhile (· != ']') := by decide +kernel
    exact absurd (hcloses.isDigit '.' hdot) (by decide)
  refine ⟨hcopy, hnot, ?_⟩
  intro h
  exact hnot (h _ _ hcopy "a, b[0..1]" (by decide))

end Pinfile

end Pinout
