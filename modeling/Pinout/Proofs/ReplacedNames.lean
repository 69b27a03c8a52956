import Pinout.Pinfile.Replacement
import Pinout.Proofs.DividingComma

/-!
What replacement makes of a line. The name is what follows the first comma that ends a cell and has
no line feed after it; how the name is written does not matter, and every cut that is made to put
the location in its place lies between two characters.
-/

namespace Pinout

open Pattern (CellEnd CutAt)

namespace Text

/-- A text that consists of two has a position between them, which is where the second starts if
octets are counted. -/
theorem exists_pos?_of_append {s a b : String} (h : s = a ++ b) :
    ∃ p : s.Pos, s.pos? ⟨a.utf8ByteSize⟩ = some p ∧ (s.sliceTo p).copy = a ∧
      (s.sliceFrom p).copy = b := by
  subst h
  have hvalid : String.Pos.Raw.IsValid (a ++ b) ⟨a.utf8ByteSize⟩ :=
    String.Pos.Raw.isValid_rawEndPos.append_right b
  have hslice := String.Pos.Raw.isValidForSlice_eq_true_iff.mpr hvalid.toSlice
  have hsplits : ((a ++ b).pos _ hvalid).Splits a b := ⟨rfl, rfl⟩
  refine ⟨_, ?_, hsplits.copy_sliceTo_eq, hsplits.copy_sliceFrom_eq⟩
  rw [String.pos?, String.Slice.pos?, dif_pos hslice]
  rfl

end Text

namespace Pinfile

/-- Every outcome there is of replacing the name in a line. -/
inductive Placed (table : PinTable) (n : Nat) (line : String) :
    Except ReplaceError String → Prop where
  | blank : Text.isBlank line = true → Placed table n line (.ok line)
  | unparsable : Text.isBlank line = false →
      (∀ before after, CellEnd line.toList before after → '\n' ∈ after) →
        Placed table n line (.error (.unparsable n line))
  | title {before after : List Char} : Text.isBlank line = false →
      CutAt line.toList before after → Text.upper (Line.trimmed after) = locationTitle →
        Placed table n line (.ok line)
  | unknownPin {before after : List Char} : Text.isBlank line = false →
      CutAt line.toList before after → Text.upper (Line.trimmed after) ≠ locationTitle →
        table.lookup (Line.trimmed after) = none →
          Placed table n line (.error (.unknownPin n (Text.upper (Line.trimmed after))))
  | pin {before after : List Char} {location : String} : Text.isBlank line = false →
      CutAt line.toList before after → Text.upper (Line.trimmed after) ≠ locationTitle →
        table.lookup (Line.trimmed after) = some location →
          Placed table n line
            (.ok (String.ofList (before ++ ',' :: after.takeWhile Text.isSpace) ++ location))

theorem pinName_eq (r : Pattern.Row) : pinName r = Text.upper (Line.trimmed r.right) := rfl

theorem lookup_pinName (table : PinTable) (r : Pattern.Row) :
    table.lookup (pinName r) = table.lookup (Line.trimmed r.right) :=
  table.lookup_upper (Line.trimmed r.right)

theorem isBlank_of_locateLine_error {table : PinTable} {n : Nat} {line : String}
    {e : ReplaceError} (h : locateLine table n line = .error e) : Text.isBlank line = false := by
  rw [Bool.eq_false_iff]
  intro hb
  rw [locateLine_eq, if_pos hb] at h
  cases h

theorem placed_locateLine (table : PinTable) (n : Nat) (line : String) :
    Placed table n line (locateLine table n line) := by
  cases h : locateLine table n line with
  | ok row =>
    cases locateLine_eq_ok_iff.mp h with
    | blank hb => exact .blank hb
    | title hb hr hn => exact .title hb (Pattern.cutAt_of_row? hr) hn
    | pin hb hr hn hl =>
      rw [lookup_pinName] at hl
      exact .pin hb (Pattern.cutAt_of_row? hr) hn hl
  | error e =>
    have hb := isBlank_of_locateLine_error h
    rcases locateLine_error_cases h with ⟨_, hr, rfl⟩ | ⟨r, hr, hn, hl, rfl⟩
    · exact .unparsable hb (Pattern.row?_eq_none_iff.mp hr)
    · rw [lookup_pinName] at hl
      exact .unknownPin hb (Pattern.cutAt_of_row? hr) hn hl

theorem locateLine_of_placed {table : PinTable} {n : Nat} {line : String}
    {outcome : Except ReplaceError String} (h : Placed table n line outcome) :
    locateLine table n line = outcome := by
  cases h with
  | blank hb => exact locateLine_eq_ok_iff.mpr (.blank hb)
  | unparsable hb hnone => simp [locateLine_eq, hb, Pattern.row?_eq_none_iff.mpr hnone]
  | title hb hcut hn =>
    obtain ⟨r, hr, -, rfl⟩ := Pattern.exists_row?_of_cutAt hcut
    exact locateLine_eq_ok_iff.mpr (.title hb hr hn)
  | unknownPin hb hcut hn hl =>
    obtain ⟨r, hr, -, rfl⟩ := Pattern.exists_row?_of_cutAt hcut
    rw [← pinName_eq] at hn ⊢
    rw [← lookup_pinName] at hl
    simp [locateLine_eq, hb, hr, hn, hl]
  | pin hb hcut hn hl =>
    obtain ⟨r, hr, rfl, rfl⟩ := Pattern.exists_row?_of_cutAt hcut
    rw [← lookup_pinName] at hl
    exact locateLine_eq_ok_iff.mpr (.pin hb hr hn hl)

theorem locateLine_eq_iff_placed {table : PinTable} {n : Nat} {line : String}
    {outcome : Except ReplaceError String} :
    locateLine table n line = outcome ↔ Placed table n line outcome := by
  constructor
  · rintro rfl
    exact placed_locateLine table n line
  · exact locateLine_of_placed

/-- The white space before the name in a cell, cut off by counting octets. -/
def indent? (cell : String) : Option String :=
  let name := String.ofList (Text.trimStart cell.toList)
  (cell.pos? ⟨cell.utf8ByteSize - name.utf8ByteSize⟩).map fun p => (cell.sliceTo p).copy

/-- The line up to offset `start`, the white space there and the location. There is no such row if a
cut is outside the line or inside a character. -/
def sliceRow? (line : String) (start : Nat) (location : String) : Option String := do
  let p ← line.pos? ⟨start⟩
  let indent ← indent? (line.sliceFrom p).copy
  return (line.sliceTo p).copy ++ indent ++ location

theorem indent?_ofList (cell : List Char) :
    indent? (String.ofList cell) = some (String.ofList (cell.takeWhile Text.isSpace)) := by
  have hcell : String.ofList cell =
      String.ofList (cell.takeWhile Text.isSpace) ++ String.ofList (Text.trimStart cell) := by
    rw [← String.ofList_append, Text.trimStart, List.takeWhile_append_dropWhile]
  have hsize : (String.ofList cell).utf8ByteSize -
      (String.ofList (Text.trimStart cell)).utf8ByteSize =
        (String.ofList (cell.takeWhile Text.isSpace)).utf8ByteSize := by
    rw [hcell, String.utf8ByteSize_append]
    omega
  obtain ⟨p, hp, hto, -⟩ := Text.exists_pos?_of_append hcell
  rw [indent?, String.toList_ofList, hsize, hp, Option.map_some, hto]

theorem sliceRow?_of_cutAt {line : String} {before after : List Char}
    (h : CutAt line.toList before after) (location : String) :
    sliceRow? line (String.ofList (before ++ [','])).utf8ByteSize location =
      some (String.ofList (before ++ ',' :: after.takeWhile Text.isSpace) ++ location) := by
  have hline : line = String.ofList (before ++ [',']) ++ String.ofList after := by
    rw [← String.ofList_append, ← String.toList_inj, h.cellEnd.chars]
    simp
  obtain ⟨p, hp, hto, hfrom⟩ := Text.exists_pos?_of_append hline
  have hfront : String.ofList (before ++ [',']) ++ String.ofList (after.takeWhile Text.isSpace) =
      String.ofList (before ++ ',' :: after.takeWhile Text.isSpace) := by
    rw [← String.ofList_append, List.append_assoc, List.singleton_append]
  rw [sliceRow?, hp, ← hfront, ← hto]
  simp only [bind, Option.bind_some, hfrom, indent?_ofList, pure]

/-- A line is replaced, or refused, for its right cell alone; the location is found under the name as
it is written, and it is put in between characters. -/
theorem locateLine_placed (table : PinTable) (n : Nat) (line : String) :
    (∀ outcome, locateLine table n line = outcome ↔ Placed table n line outcome) ∧
    (∀ name, table.lookup (Text.upper name) = table.lookup name) ∧
    ∀ before after location, CutAt line.toList before after →
      sliceRow? line (String.ofList (before ++ [','])).utf8ByteSize location =
        some (String.ofList (before ++ ',' :: after.takeWhile Text.isSpace) ++ location) := by
  refine ⟨fun _ => locateLine_eq_iff_placed, table.lookup_upper, ?_⟩
  intro before after location h
  exact sliceRow?_of_cutAt h location

theorem locateLine_placed_multiline :
    CutAt "é,a\nb,\u00a0straße".toList "é,a\nb".toList "\u00a0straße".toList ∧
    Placed (.ofPairs [("STRASSE", "P1")]) 4 "é,a\nb,\u00a0straße" (.ok "é,a\nb,\u00a0P1") ∧
    Placed .empty 4 "é,a\nb,\u00a0straße" (.error (.unknownPin 4 "STRASSE")) ∧
    Placed .empty 4 "é,a\n,\nb" (.error (.unparsable 4 "é,a\n,\nb")) ∧
    sliceRow? "é,a\nb,\u00a0straße" 7 "P1" = some "é,a\nb,\u00a0P1" := by
  have hcut : CutAt "é,a\nb,\u00a0straße".toList "é,a\nb".toList "\u00a0straße".toList :=
    Pattern.cutAt_of_row? (r := ⟨"é,".toList, "a\nb".toList, "\u00a0straße".toList⟩)
      (by decide +kernel)
  obtain ⟨hplaced, -, hslice⟩ :=
    locateLine_placed (.ofPairs [("STRASSE", "P1")]) 4 "é,a\nb,\u00a0straße"
  refine ⟨hcut, (hplaced _).mp (by decide +kernel), ?_, ?_, ?_⟩
  · exact ((locateLine_placed .empty 4 _).1 _).mp (by decide +kernel)
  · exact ((locateLine_placed .empty 4 _).1 _).mp (by decide +kernel)
  · exact hslice _ _ "P1" hcut

end Pinfile

end Pinout
