import Pinout.Pinfile.Build
import Pinout.Proofs.PrintedRows

/-!
What expansion hands on, replacement understands: every row that is not blank has a dividing comma.
So a build fails in its second stage only for want of a pin, and the error tells the row.
-/

namespace Pinout

/-- White space alone has no names in it, with or without brackets. -/
theorem Line.classify_of_isBlank {text : String} (h : Text.isBlank text = true) :
    Line.classify text = .ok (.blank text) := by
  have hcomma : ',' ∉ text.toList := by
    intro hmem
    rw [Text.isBlank_of_mem hmem (by decide)] at h
    cases h
  have hb : Pattern.binding? text.toList = none := by
    cases hm : Pattern.binding? text.toList with
    | none => rfl
    | some m => exact absurd (Pattern.mem_comma_of_binding? hm) hcomma
  have hn : (Pattern.names? text.toList).isSome = false := by
    cases hm : (Pattern.names? text.toList).isSome with
    | false => rfl
    | true =>
      obtain ⟨before, d, after, he, _⟩ := Pattern.exists_comma_of_names? hm
      exact absurd (by simp [he]) hcomma
  simp [Line.classify, hb, hn, h]

theorem Line.row?_isSome_of_mem_expand {text row : String} {rows : List String}
    (h : Line.expand text = .ok rows) (hr : row ∈ rows) (hn : '\n' ∉ text.toList)
    (hb : Text.isBlank row = false) : (Pattern.row? row.toList).isSome = true := by
  rcases Line.expand_cases h with ⟨b, hc, he⟩ | ⟨_, hnames, rfl⟩ | ⟨_, hblank, rfl⟩
  · obtain ⟨i, j, rfl⟩ := Binding.exists_of_mem_expand he hr
    obtain ⟨hleft, hright⟩ := Line.isName_of_classify hc
    rw [Binding.row?_row hleft hright]
    rfl
  · rw [List.mem_singleton] at hr
    subst hr
    exact Pattern.row?_isSome_of_names? hnames hn
  · rw [List.mem_singleton] at hr
    subst hr
    rw [hblank] at hb
    cases hb

namespace Pinfile

open Report

theorem row?_isSome_of_mem_expand {policy : Policy} {lines : List String} {row : String}
    (hn : ∀ line ∈ lines, '\n' ∉ line.toList) (h : row ∈ (expand policy lines).lines)
    (hb : Text.isBlank row = false) : (Pattern.row? row.toList).isSome = true := by
  rcases exists_of_mem_expand h with rfl | ⟨line, rows, hl, hw, hr⟩
  · decide +kernel
  · exact Line.row?_isSome_of_mem_expand hw hr (hn line hl) hb

theorem exists_of_mem_locate_errors {table : PinTable} {policy : Policy} {lines : List String}
    {e : ReplaceError} (h : e ∈ (locate table policy lines).errors) :
    ∃ i line, lines[i]? = some line ∧ locateLine table (i + 1) line = .error e := by
  rw [locate_eq] at h
  obtain ⟨i, line, hi, hw⟩ := exists_of_mem_errors h
  rw [Nat.add_comm] at hw
  exact ⟨i, line, hi, locateRow_eq_error_iff.mp hw⟩

theorem mem_locate_of_mem_build {table : PinTable} {policy : Policy} {text : String}
    {e : ReplaceError} (h : .replacement e ∈ (build table policy text).errors) :
    e ∈ (locate table policy (expand policy (body text)).lines).errors := by
  rw [build_eq, buildFrom_eq] at h
  split at h
  · simp at h
  · simpa using h

theorem locateLine_header (table : PinTable) (n : Nat) :
    locateLine table n header = .ok header := by
  have hb : Text.isBlank header = false := by decide +kernel
  have hr : Pattern.row? header.toList = some ⟨[], ['T', 'o'], " Location".toList⟩ := by
    decide +kernel
  apply locateLine_eq_ok_iff.mpr
  exact .title hb hr (by decide +kernel)

/-- An error of the second stage is a missing pin, in a row below the column titles. -/
theorem exists_row_of_mem_build {table : PinTable} {policy : Policy} {text : String}
    {e : ReplaceError} (h : .replacement e ∈ (build table policy text).errors) :
    ∃ k row r, 2 ≤ k ∧ (expand policy (body text)).lines[k - 1]? = some row ∧
      Pattern.row? row.toList = some r ∧ e = .unknownPin k (pinName r) := by
  obtain ⟨i, row, hi, hl⟩ := exists_of_mem_locate_errors (mem_locate_of_mem_build h)
  -- row 0 holds the column titles, which replacement lets pass
  have hk : i ≠ 0 := by
    intro h0
    subst h0
    have hrow : row = header := by simpa [expand_eq] using hi.symm
    rw [hrow, locateLine_header] at hl
    cases hl
  rcases locateLine_error_cases hl with ⟨hb, hnone, _⟩ | ⟨r, hr, _, _, rfl⟩
  · have hsome := row?_isSome_of_mem_expand (fun line hline => newline_not_mem_body hline)
      (List.mem_of_getElem? hi) hb
    rw [hnone] at hsome
    cases hsome
  · exact ⟨i + 1, row, r, by omega, hi, hr, rfl⟩

/-- Replacement reads every expanded row as it was printed; what it may lack is the pin. -/
theorem expanded_rows_understood (table : PinTable) (policy : Policy) (lines : List String)
    (text : String) :
    ((∀ line ∈ lines, '\n' ∉ line.toList) →
      (∀ row ∈ (expand policy lines).lines, Text.isBlank row = false →
        (Pattern.row? row.toList).isSome = true) ∧
      ∀ line ∈ lines, ∀ b rows, Line.classify line = .ok (.binding b) → b.expand = .ok rows →
        ∀ row ∈ rows, ∃ i j r, row = b.row i j ∧ Pattern.row? row.toList = some r ∧
          String.ofList r.left = Binding.cell b.left.name i ∧
          Line.trimmed r.right = Binding.cell b.right.name j) ∧
    ∀ e, .replacement e ∈ (build table policy text).errors →
      ∃ k row r, 2 ≤ k ∧ (expand policy (body text)).lines[k - 1]? = some row ∧
        Pattern.row? row.toList = some r ∧
        e = .unknownPin k (Text.upper (Line.trimmed r.right)) := by
  refine ⟨fun hn => ⟨fun row hrow hb => row?_isSome_of_mem_expand hn hrow hb, ?_⟩,
    fun e he => exists_row_of_mem_build he⟩
  intro line _ b rows hc he row hrow
  obtain ⟨i, j, rfl⟩ := Binding.exists_of_mem_expand he hrow
  obtain ⟨hl, hr⟩ := Line.isName_of_classify hc
  exact ⟨i, j, _, rfl, Binding.row?_row hl hr i j, String.ofList_toList, Binding.trimmed_cell hr j⟩

theorem expanded_rows_understood_missing_pin :
    (∀ line ∈ ["x[0..1], y[..]"], '\n' ∉ line.toList) ∧
    Line.classify "x[0..1], y[..]" = .ok (.binding ⟨⟨"x", "0..1"⟩, ⟨"y", ".."⟩⟩) ∧
    Binding.expand ⟨⟨"x", "0..1"⟩, ⟨"y", ".."⟩⟩ = .ok ["x[0], y[0]", "x[1], y[1]"] ∧
    "x[1], y[1]" ∈ (expand .keepGoing ["x[0..1], y[..]"]).lines ∧
    Text.isBlank "x[1], y[1]" = false ∧ (Pattern.row? "x[1], y[1]".toList).isSome = true ∧
    (∃ i j r, "x[1], y[1]" = Binding.row ⟨⟨"x", "0..1"⟩, ⟨"y", ".."⟩⟩ i j ∧
      Pattern.row? "x[1], y[1]".toList = some r ∧ String.ofList r.left = Binding.cell "x" i ∧
      Line.trimmed r.right = Binding.cell "y" j) ∧
    .replacement (.unknownPin 3 "Y[1]") ∈
      (build (.ofPairs [("y[0]", "P0")]) .keepGoing "x[0..1], y[..]").errors ∧
    ∃ k row r, 2 ≤ k ∧ (expand .keepGoing (body "x[0..1], y[..]")).lines[k - 1]? = some row ∧
      Pattern.row? row.toList = some r ∧
      ReplaceError.unknownPin 3 "Y[1]" = .unknownPin k (Text.upper (Line.trimmed r.right)) := by
  have hn : ∀ line ∈ ["x[0..1], y[..]"], '\n' ∉ line.toList := by decide
  have hc : Line.classify "x[0..1], y[..]" = .ok (.binding ⟨⟨"x", "0..1"⟩, ⟨"y", ".."⟩⟩) := by
    decide +kernel
  have he : Binding.expand ⟨⟨"x", "0..1"⟩, ⟨"y", ".."⟩⟩ = .ok ["x[0], y[0]", "x[1], y[1]"] := by
    decide +kernel
  have hm : "x[1], y[1]" ∈ (expand .keepGoing ["x[0..1], y[..]"]).lines := by decide +kernel
  have hb : Text.isBlank "x[1], y[1]" = false := by decide +kernel
  have herr : .replacement (.unknownPin 3 "Y[1]") ∈
      (build (.ofPairs [("y[0]", "P0")]) .keepGoing "x[0..1], y[..]").errors := by
    decide +kernel
  obtain ⟨hrows, herrors⟩ := expanded_rows_understood (.ofPairs [("y[0]", "P0")]) .keepGoing
    ["x[0..1], y[..]"] "x[0..1], y[..]"
  obtain ⟨hsome, hcells⟩ := hrows hn
  exact ⟨hn, hc, he, hm, hb, hsome _ hm hb,
    hcells _ List.mem_cons_self _ _ hc he _ (List.mem_cons_of_mem _ List.mem_cons_self),
    herr, herrors _ herr⟩

end Pinfile

end Pinout
