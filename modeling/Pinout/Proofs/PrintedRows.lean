import Pinout.Pinfile.Expansion
import Pinout.Proofs.DividingComma
import Pinout.Proofs.LineByLine
import Pinout.Proofs.ListedContents

/-!
The rows that a binding prints. Such a row is again a binding, of the same names, with one index on
each side; so an expansion has nothing left to expand.
-/

namespace Pinout

/-- The characters of a name; there is at least one. -/
structure IsName (s : String) : Prop where
  ne_nil : s.toList ≠ []
  isWord : ∀ c ∈ s.toList, Pattern.isWord c = true

namespace Binding

def indexed (name : String) (i : Index) : Pattern.Bracketed := ⟨name.toList, i.text.toList⟩

theorem toList_cell (name : String) (i : Index) : (cell name i).toList = (indexed name i).chars := by
  simp [cell, indexed, Pattern.Bracketed.chars]

theorem indexed_wellFormed {name : String} (h : IsName name) (i : Index) :
    (indexed name i).WellFormed := by
  refine ⟨h.ne_nil, h.isWord, Index.text_ne_nil i, ?_⟩
  intro hmem
  exact absurd (Index.isWord_of_mem_text hmem) (by decide)

theorem toList_row (b : Binding) (i j : Index) :
    (b.row i j).toList = (cell b.left.name i).toList ++ ',' :: ' ' :: (cell b.right.name j).toList := by
  simp [row]

theorem binding?_row {b : Binding} (hl : IsName b.left.name) (hr : IsName b.right.name)
    (i j : Index) : Pattern.binding? (b.row i j).toList =
      some ⟨indexed b.left.name i, ([], [' ']), indexed b.right.name j⟩ := by
  have hgap : Pattern.Blanks ([], [' ']) := ⟨by simp, List.forall_mem_singleton.mpr (by decide)⟩
  have h := Pattern.binding?_of_chars (p := ⟨indexed b.left.name i, ([], [' ']), indexed b.right.name j⟩)
    (indexed_wellFormed hl i) (indexed_wellFormed hr j) hgap []
  rw [toList_row, toList_cell, toList_cell, ← h]
  simp [Pattern.Pair.chars]

theorem side_indexed {name : String} (h : IsName name) (i : Index) :
    Line.side (indexed name i) = ⟨name, i.text⟩ := by
  simp only [Line.side, Line.trimmed, indexed, Pattern.trimChars_of_isWord h.isWord,
    Pattern.trimChars_of_isWord (fun c hc => Index.isWord_of_mem_text hc), String.ofList_toList]

theorem mem_cell {name : String} (h : IsName name) {i : Index} {c : Char}
    (hc : c ∈ (cell name i).toList) : Pattern.isWord c = true ∨ c = '[' ∨ c = ']' := by
  simp only [toList_cell, Pattern.Bracketed.chars, indexed, List.mem_append, List.mem_cons,
    List.not_mem_nil, or_false] at hc
  rcases hc with (hc | hc | hc) | hc
  · exact Or.inl (h.isWord c hc)
  · exact Or.inr (Or.inl hc)
  · exact Or.inl (Index.isWord_of_mem_text hc)
  · exact Or.inr (Or.inr hc)

theorem not_mem_cell {name : String} (h : IsName name) {i : Index} {c : Char}
    (hw : Pattern.isWord c = false) (hopen : c ≠ '[') (hclose : c ≠ ']') :
    c ∉ (cell name i).toList := by
  intro hc
  rcases mem_cell h hc with hword | he | he
  · rw [hw] at hword
    cases hword
  · exact hopen he
  · exact hclose he

theorem isSpace_of_mem_cell {name : String} (h : IsName name) {i : Index} {c : Char}
    (hc : c ∈ (cell name i).toList) : Text.isSpace c = false := by
  rcases mem_cell h hc with hw | rfl | rfl
  · exact Pattern.isSpace_of_isWord hw
  · decide
  · decide

/-- The dividing comma of a printed row is the one between its two cells. -/
theorem row?_row {b : Binding} (hl : IsName b.left.name) (hr : IsName b.right.name)
    (i j : Index) : Pattern.row? (b.row i j).toList =
      some ⟨[], (cell b.left.name i).toList, ' ' :: (cell b.right.name j).toList⟩ := by
  rw [toList_row]
  apply Pattern.row?_cell
  · simp [cell]
  · exact not_mem_cell hl (by decide) (by decide) (by decide)
  · rw [List.mem_cons, not_or]
    exact ⟨by decide, not_mem_cell hr (by decide) (by decide) (by decide)⟩

theorem trimmed_cell {name : String} (h : IsName name) (i : Index) :
    Line.trimmed (' ' :: (cell name i).toList) = cell name i := by
  rw [Line.trimmed, Text.trimChars_cons (by decide),
    Text.trimChars_of_not_isSpace fun c hc => isSpace_of_mem_cell h hc, String.ofList_toList]

/-- A printed row is a line of its own that expands to itself. -/
theorem expand_row {b : Binding} (hl : IsName b.left.name) (hr : IsName b.right.name)
    (i j : Index) : Line.expand (b.row i j) = .ok [b.row i j] := by
  apply Line.expand_eq_ok_iff.mpr
  refine ⟨.binding ⟨⟨b.left.name, i.text⟩, ⟨b.right.name, j.text⟩⟩, ?_, ?_⟩
  · simp only [Line.classify, binding?_row hl hr, side_indexed hl, side_indexed hr]
  · apply expand_eq_ok_iff.mpr
    refine ⟨[i], [j], ⟨⟨i.text, .list, [i.text], some [i]⟩, ⟨j.text, .list, [j.text], some [j]⟩,
      ?_, rfl, rfl⟩, rfl, rfl⟩
    simp only [resolve_eq, Specifier.resolve_text, blame, bind, Except.bind, settle_eq,
      Specifier.family, Grammar.family]

end Binding

namespace Line

theorem isName_side {m : Pattern.Bracketed} (h : m.WellFormed) : IsName (side m).name := by
  have hname : (side m).name.toList = m.name := by
    simp [side, trimmed, Pattern.trimChars_of_isWord h.isWord_name]
  exact ⟨by rw [hname]; exact h.name_ne_nil, by rw [hname]; exact h.isWord_name⟩

theorem isName_of_classify {text : String} {b : Binding} (h : classify text = .ok (.binding b)) :
    IsName b.left.name ∧ IsName b.right.name := by
  rcases classify_cases h with ⟨m, hm, he⟩ | ⟨_, _, he⟩ | ⟨_, _, he⟩
  · cases he
    obtain ⟨hl, hr⟩ := Pattern.wellFormed_of_binding? hm
    exact ⟨isName_side hl, isName_side hr⟩
  · cases he
  · cases he

/-- A line yields printed rows, or itself. -/
theorem expand_cases {text : String} {rows : List String} (h : expand text = .ok rows) :
    (∃ b, classify text = .ok (.binding b) ∧ b.expand = .ok rows) ∨
    (classify text = .ok (.basic text) ∧ (Pattern.names? text.toList).isSome = true ∧
      rows = [text]) ∨
    (classify text = .ok (.blank text) ∧ Text.isBlank text = true ∧ rows = [text]) := by
  obtain ⟨line, hc, hr⟩ := expand_eq_ok_iff.mp h
  rcases classify_cases hc with ⟨m, _, rfl⟩ | ⟨_, hn, rfl⟩ | ⟨_, hb, rfl⟩
  · exact Or.inl ⟨_, hc, hr⟩
  · cases hr
    exact Or.inr (Or.inl ⟨hc, hn, rfl⟩)
  · cases hr
    exact Or.inr (Or.inr ⟨hc, hb, rfl⟩)

end Line

theorem Binding.exists_of_mem_expand {b : Binding} {rows : List String} {row : String}
    (h : b.expand = .ok rows) (hr : row ∈ rows) : ∃ i j, row = b.row i j := by
  obtain ⟨is, js, _, _, rfl⟩ := Binding.expand_eq_ok_iff.mp h
  rw [← List.map_uncurry_zip_eq_zipWith] at hr
  obtain ⟨p, _, rfl⟩ := List.mem_map.mp hr
  exact ⟨p.1, p.2, rfl⟩

theorem Line.expand_of_mem_expand {text row : String} {rows : List String}
    (h : Line.expand text = .ok rows) (hr : row ∈ rows) : Line.expand row = .ok [row] := by
  rcases Line.expand_cases h with ⟨b, hc, hb⟩ | ⟨_, _, rfl⟩ | ⟨_, _, rfl⟩
  · obtain ⟨i, j, rfl⟩ := Binding.exists_of_mem_expand hb hr
    obtain ⟨hl, hr⟩ := Line.isName_of_classify hc
    exact Binding.expand_row hl hr i j
  · rw [List.mem_singleton] at hr
    subst hr
    exact h
  · rw [List.mem_singleton] at hr
    subst hr
    exact h

namespace Pinfile

open Report

theorem expand_header : Line.expand header = .ok [header] := by
  decide +kernel

theorem exists_of_mem_expand {policy : Policy} {lines : List String} {row : String}
    (h : row ∈ (expand policy lines).lines) :
    row = header ∨ ∃ line rows, line ∈ lines ∧ Line.expand line = .ok rows ∧ row ∈ rows := by
  rw [expand_eq, lines_append] at h
  rcases List.mem_append.mp h with h | h
  · exact Or.inl (List.mem_singleton.mp h)
  · obtain ⟨_, line, rows, hl, hw, hr⟩ := exists_of_mem_lines h
    exact Or.inr ⟨line, rows, hl, expandLine_eq_ok_iff.mp hw, hr⟩

theorem expand_of_mem_expand {policy : Policy} {lines : List String} {row : String}
    (h : row ∈ (expand policy lines).lines) : Line.expand row = .ok [row] := by
  rcases exists_of_mem_expand h with rfl | ⟨line, rows, _, hw, hr⟩
  · exact expand_header
  · exact Line.expand_of_mem_expand hw hr

theorem succeeds_of_fixed {lines : List String} (h : ∀ line ∈ lines, Line.expand line = .ok [line])
    (n : Nat) : Succeeds expandLine n lines (lines.map ([·])) := by
  induction lines generalizing n with
  | nil => exact .nil n
  | cons line lines ih =>
    have hline := h line List.mem_cons_self
    have hlines : ∀ l ∈ lines, Line.expand l = .ok [l] :=
      fun l hl => h l (List.mem_cons_of_mem line hl)
    exact .cons (expandLine_eq_ok_iff.mpr hline) (ih hlines (n + 1))

theorem expand_of_fixed {lines : List String} (policy : Policy)
    (h : ∀ line ∈ lines, Line.expand line = .ok [line]) :
    expand policy lines = ⟨header :: lines, []⟩ := by
  rw [expand_eq, collect_of_succeeds policy (succeeds_of_fixed h 1)]
  apply ext_parts
  · simp [← List.flatMap_def]
  · rfl

/-- Expanding an expansion changes nothing, each of its rows included. -/
theorem expand_tail_expand (policy policy' : Policy) (lines : List String) :
    expand policy' (expand policy lines).lines.tail = ⟨(expand policy lines).lines, []⟩ ∧
    ∀ row ∈ (expand policy lines).lines, Line.expand row = .ok [row] := by
  have hfixed : ∀ row ∈ (expand policy lines).lines, Line.expand row = .ok [row] :=
    fun row h => expand_of_mem_expand h
  refine ⟨?_, hfixed⟩
  rw [expand_of_fixed policy' fun row h => hfixed row (List.mem_of_mem_tail h), expand_eq]
  rfl

theorem expand_tail_expand_countUp :
    "b[1], c[8]" ∈ (expand .keepGoing ["?", "b[0..1], c[7..#]"]).lines ∧
    Line.expand "b[1], c[8]" = .ok ["b[1], c[8]"] := by
  have hmem : "b[1], c[8]" ∈ (expand .keepGoing ["?", "b[0..1], c[7..#]"]).lines := by
    decide +kernel
  exact ⟨hmem, (expand_tail_expand .keepGoing .halt _).2 _ hmem⟩

end Pinfile

end Pinout
