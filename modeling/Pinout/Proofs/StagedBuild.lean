import Pinout.Proofs.PrintedRows
import Pinout.Proofs.UnderstoodRows
import Pinout.Proofs.WrittenLines

/-!
A build in two steps: the rows of the expansion are written out, and what was written is read again
and has its pin names replaced. This comes to the same as a build in one go, as no row holds a part
of a line end and the column titles begin with a letter.
-/

namespace Pinout

/-- A row consists of characters of its line, of names, brackets, commas and blanks. -/
theorem Line.not_mem_of_mem_expand {text row : String} {rows : List String} {c : Char}
    (h : Line.expand text = .ok rows) (hr : row ∈ rows) (hc : c ∉ text.toList)
    (hword : Pattern.isWord c = false) (hmark : c ∉ ['[', ']', ',', ' ']) : c ∉ row.toList := by
  simp only [List.mem_cons, List.not_mem_nil, or_false, not_or] at hmark
  obtain ⟨hopen, hclose, hcomma, hblank⟩ := hmark
  rcases Line.expand_cases h with ⟨b, hb, he⟩ | ⟨_, _, rfl⟩ | ⟨_, _, rfl⟩
  · obtain ⟨i, j, rfl⟩ := Binding.exists_of_mem_expand he hr
    obtain ⟨hleft, hright⟩ := Line.isName_of_classify hb
    rw [Binding.toList_row, List.mem_append, List.mem_cons, List.mem_cons]
    rintro (hmem | rfl | rfl | hmem)
    · exact Binding.not_mem_cell hleft hword hopen hclose hmem
    · exact hcomma rfl
    · exact hblank rfl
    · exact Binding.not_mem_cell hright hword hopen hclose hmem
  · rw [List.mem_singleton] at hr
    exact hr ▸ hc
  · rw [List.mem_singleton] at hr
    exact hr ▸ hc

namespace Pinfile

theorem not_mem_body {text line : String} {c : Char} (h : line ∈ body text)
    (hc : c ∉ text.toList) : c ∉ line.toList := by
  intro hmem
  have htrim := Text.mem_of_mem_lines (mem_trimmedLines_of_mem_body h) hmem
  rw [Text.toList_trim] at htrim
  exact hc (Text.mem_of_mem_trimChars htrim)

/-- No row holds a line feed, nor a carriage return if there is none in the text. -/
theorem not_mem_row {policy : Policy} {text row : String} (hcr : '\r' ∉ text.toList)
    (h : row ∈ (expand policy (body text)).lines) : '\n' ∉ row.toList ∧ '\r' ∉ row.toList := by
  rcases exists_of_mem_expand h with rfl | ⟨line, rows, hl, he, hr⟩
  · decide
  · have hn := newline_not_mem_body hl
    have hc := not_mem_body hl hcr
    exact ⟨Line.not_mem_of_mem_expand he hr hn (by decide) (by decide),
      Line.not_mem_of_mem_expand he hr hc (by decide) (by decide)⟩

/-- The rows of an expansion, written and read again, are the same rows. -/
theorem trimmedLines_written {policy : Policy} {text last : String} (hcr : '\r' ∉ text.toList)
    (hlast : (expand policy (body text)).lines.getLast? = some last) (hne : last ≠ "")
    (hend : ∀ c, last.toList.getLast? = some c → Text.isSpace c = false) :
    trimmedLines (Text.joinLines (expand policy (body text)).lines) =
      (expand policy (body text)).lines := by
  have hrows : ∀ row ∈ (expand policy (body text)).lines,
      '\n' ∉ row.toList ∧ row.toList.getLast? ≠ some '\r' := by
    intro row hrow
    obtain ⟨hn, hr⟩ := not_mem_row hcr hrow
    exact ⟨hn, fun he => hr (List.mem_of_getLast? he)⟩
  have hchars : last.toList ≠ [] := by simpa using hne
  obtain ⟨front, d, hback⟩ := (List.eq_nil_or_concat last.toList).resolve_left hchars
  have hd : Text.isSpace d = false := hend d (by simp [hback])
  have hfirst : (expand policy (body text)).lines.head? = some header := by
    rw [expand_eq]
    rfl
  have hfront : header.toList = 'T' :: "o, Location".toList := by decide
  exact Text.lines_trim_joinLines hrows hfirst hfront (by decide) hlast (by simpa using hback) hd

/-- Building in one go is expanding, writing the rows, and replacing in what is read of them. -/
theorem build_eq_locate_written (table : PinTable) {policy : Policy} {text last : String}
    (hcr : '\r' ∉ text.toList)
    (hgo : (expand policy (body text)).isClean = true ∨ policy = .keepGoing)
    (hlast : (expand policy (body text)).lines.getLast? = some last) (hne : last ≠ "")
    (hend : ∀ c, last.toList.getLast? = some c → Text.isSpace c = false) :
    ∃ sink written, Stream.emit .unbounded (expand policy (body text)).lines = (sink, .ok ()) ∧
      Stream.textOf sink.taken = .ok written ∧
      build table policy text = ⟨(locate table policy (trimmedLines written)).lines,
        (expand policy (body text)).errors.map .expansion ++
          (locate table policy (trimmedLines written)).errors.map .replacement⟩ := by
  refine ⟨_, Text.joinLines (expand policy (body text)).lines, Stream.emit_unbounded [] _, ?_, ?_⟩
  · simp only [Stream.textOf, List.nil_append, Octets.text?_ofText]
  · rw [trimmedLines_written hcr hlast hne hend, build_eq, buildFrom_eq, if_neg]
    -- the expansion was not halted, whichever reason there is
    rcases hgo with hclean | rfl
    · simp [hclean]
    · simp [Policy.goesOn]

/-- A text with column titles, a line that does not expand and pins that the table may lack. -/
def faultyText : String := "To, Location\nx[0..1], y[1..]\n?\n \u3000\nz, w"

theorem build_eq_locate_written_faulty :
    '\r' ∉ faultyText.toList ∧
    (expand .keepGoing (body faultyText)).lines.getLast? = some "z, w" ∧
    ∃ sink written,
      Stream.emit .unbounded (expand .keepGoing (body faultyText)).lines = (sink, .ok ()) ∧
      Stream.textOf sink.taken = .ok written ∧
      build (.ofPairs [("y[2]", "P2")]) .keepGoing faultyText =
        ⟨(locate (.ofPairs [("y[2]", "P2")]) .keepGoing (trimmedLines written)).lines,
          (expand .keepGoing (body faultyText)).errors.map .expansion ++
            (locate (.ofPairs [("y[2]", "P2")]) .keepGoing (trimmedLines written)).errors.map
              .replacement⟩ := by
  have hcr : '\r' ∉ faultyText.toList := by decide +kernel
  have hlast : (expand .keepGoing (body faultyText)).lines.getLast? = some "z, w" := by
    decide +kernel
  have hend : ∀ c, "z, w".toList.getLast? = some c → Text.isSpace c = false := by
    intro c hc
    cases hc
    decide
  exact ⟨hcr, hlast, build_eq_locate_written (.ofPairs [("y[2]", "P2")]) hcr (Or.inr rfl) hlast
    (by decide) hend⟩

end Pinfile

end Pinout
