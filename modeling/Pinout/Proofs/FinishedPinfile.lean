import Pinout.Proofs.FirstFailure
import Pinout.Proofs.UnderstoodRows

/-!
What a clean build consists of: the column titles, and then for every line of the body, in order,
the rows of this line alone with the locations of its own pins.
-/

namespace Pinout

open Pinfile

/-- A row of a finished binding. -/
def Binding.finishedRow (b : Binding) (i : Index) (location : String) : String :=
  cell b.left.name i ++ ", " ++ location

/-- What a line of the body comes to in a finished pinfile. -/
inductive Finished (table : PinTable) (line : String) : List String → Prop where
  | blank : Text.isBlank line = true → Finished table line [line]
  | binding {b : Binding} {is js : List Index} {locations : List String} :
      Line.classify line = .ok (.binding b) → b.Contents is js → is.length = js.length →
        List.Forall₂ (fun j location => table.lookup (Binding.cell b.right.name j) = some location)
          js locations →
          Finished table line (List.zipWith b.finishedRow is locations)
  | title {before after : List Char} : Line.classify line = .ok (.basic line) →
      Pattern.DividedBy line.toList before after →
        Text.upper (Line.trimmed after) = locationTitle → Finished table line [line]
  | pin {before after : List Char} {location : String} : Line.classify line = .ok (.basic line) →
      Pattern.DividedBy line.toList before after →
        Text.upper (Line.trimmed after) ≠ locationTitle →
          table.lookup (Line.trimmed after) = some location →
            Finished table line
              [String.ofList (before ++ ',' :: after.takeWhile Text.isSpace) ++ location]

theorem Text.mem_upper {s : String} {c : Char} (hc : c ∈ s.toList) (hu : upperChar c = [c]) :
    c ∈ (upper s).toList := by
  rw [upper, String.toList_ofList]
  exact List.mem_flatMap.mpr ⟨c, hc, by simp [hu]⟩

namespace Binding

/-- A cell is never the column title, in whatever letter case. -/
theorem upper_cell_ne (name : String) (i : Index) : Text.upper (cell name i) ≠ locationTitle := by
  intro h
  have hmem : '[' ∈ (cell name i).toList := by simp [cell]
  -- the bracket is its own upper-case form
  have hup : '[' ∈ (Text.upper (cell name i)).toList :=
    Text.mem_upper hmem (by decide +kernel)
  rw [h] at hup
  exact absurd hup (by decide)

theorem isBlank_row (b : Binding) (i j : Index) : Text.isBlank (b.row i j) = false := by
  apply Text.isBlank_of_mem (c := ',')
  · simp [toList_row]
  · decide

theorem withLocation_row {b : Binding} (hr : IsName b.right.name) (i j : Index)
    (location : String) :
    withLocation ⟨[], (cell b.left.name i).toList, ' ' :: (cell b.right.name j).toList⟩ location =
      b.finishedRow i location := by
  have hblank : Pattern.Ends Text.isSpace (cell b.right.name j).toList := by
    intro c cs h
    exact isSpace_of_mem_cell hr (h ▸ List.mem_cons_self)
  have htake : (' ' :: (cell b.right.name j).toList).takeWhile Text.isSpace = [' '] :=
    Pattern.takeWhile_append_of_ends (List.forall_mem_singleton.mpr (by decide)) hblank
  rw [withLocation, htake, finishedRow]
  apply String.toList_injective
  simp

/-- Replacement looks the right cell of a printed row up and puts its location in. -/
theorem located_row_iff {table : PinTable} {b : Binding} (hl : IsName b.left.name)
    (hr : IsName b.right.name) {i j : Index} {out : String} :
    Located table (b.row i j) out ↔ ∃ location,
      table.lookup (cell b.right.name j) = some location ∧ out = b.finishedRow i location := by
  have hrow := row?_row hl hr i j
  have hname : pinName ⟨[], (cell b.left.name i).toList, ' ' :: (cell b.right.name j).toList⟩ =
      Text.upper (cell b.right.name j) :=
    congrArg Text.upper (trimmed_cell hr j)
  constructor
  · intro h
    cases h with
    | blank hb =>
      rw [isBlank_row] at hb
      cases hb
    | title _ hr' ht =>
      rw [hrow] at hr'
      cases hr'
      rw [hname] at ht
      exact absurd ht (upper_cell_ne b.right.name j)
    | @pin r location _ hr' _ hlook =>
      rw [hrow] at hr'
      cases hr'
      rw [hname, PinTable.lookup_upper] at hlook
      exact ⟨location, hlook, withLocation_row hr i j location⟩
  · intro h
    obtain ⟨location, hlook, rfl⟩ := h
    rw [← withLocation_row hr i j location]
    apply Located.pin (isBlank_row b i j) hrow
    · rw [hname]
      exact upper_cell_ne b.right.name j
    · rwa [hname, PinTable.lookup_upper]

theorem exists_locations {table : PinTable} {b : Binding} (hl : IsName b.left.name)
    (hr : IsName b.right.name) {is js : List Index} {outs : List String}
    (hlen : is.length = js.length)
    (h : List.Forall₂ (Located table) (List.zipWith b.row is js) outs) :
    ∃ locations, List.Forall₂
        (fun j location => table.lookup (cell b.right.name j) = some location) js locations ∧
      outs = List.zipWith b.finishedRow is locations := by
  induction is generalizing js outs with
  | nil =>
    have hjs : js = [] := List.length_eq_zero_iff.mp hlen.symm
    subst hjs
    cases h
    exact ⟨[], .nil, rfl⟩
  | cons i is ih =>
    cases js with
    | nil => cases hlen
    | cons j js =>
      cases h with
      | @cons _ out _ outs hrow hrest =>
        obtain ⟨location, hlook, rfl⟩ := (located_row_iff hl hr).mp hrow
        obtain ⟨locations, hls, rfl⟩ := ih (Nat.succ.inj hlen) hrest
        exact ⟨location :: locations, .cons hlook hls, rfl⟩

end Binding

theorem finished_of_basic {table : PinTable} {line out : String}
    (hc : Line.classify line = .ok (.basic line)) (hn : '\n' ∉ line.toList)
    (h : Located table line out) : Finished table line [out] := by
  cases h with
  | blank hb =>
    exact .blank hb
  | title _ hr ht =>
    exact .title hc (Pattern.dividedBy_of_row? hr hn) ht
  | @pin r location _ hr hne hlook =>
    apply Finished.pin hc (Pattern.dividedBy_of_row? hr hn) hne
    rwa [← PinTable.lookup_upper]

theorem finished_of_located {table : PinTable} {line : String} {rows outs : List String}
    (he : Line.expand line = .ok rows) (hn : '\n' ∉ line.toList)
    (h : List.Forall₂ (Located table) rows outs) : Finished table line outs := by
  rcases Line.expand_cases he with ⟨b, hc, hb⟩ | ⟨hc, _, rfl⟩ | ⟨_, hblank, rfl⟩
  · obtain ⟨is, js, hcontents, hlen, rfl⟩ := Binding.expand_eq_ok_iff.mp hb
    obtain ⟨hl, hr⟩ := Line.isName_of_classify hc
    obtain ⟨locations, hlook, rfl⟩ := Binding.exists_locations hl hr hlen h
    exact .binding hc hcontents hlen hlook
  · cases h with
    | cons hrow hrest =>
      cases hrest
      exact finished_of_basic hc hn hrow
  · cases h with
    | cons hrow hrest =>
      cases hrest
      cases hrow with
      | blank hb => exact .blank hb
      | title hb => exact absurd hblank (by simp [hb])
      | pin hb => exact absurd hblank (by simp [hb])

theorem Binding.Contents.unique {b : Binding} {is js is' js' : List Index}
    (h : b.Contents is js) (h' : b.Contents is' js') : is = is' ∧ js = js' := by
  obtain ⟨left, right, hr, hl, hj⟩ := h
  obtain ⟨left', right', hr', hl', hj'⟩ := h'
  rw [hr] at hr'
  cases hr'
  rw [hl] at hl'
  rw [hj] at hj'
  cases hl'
  cases hj'
  exact ⟨rfl, rfl⟩

theorem Finished.unique {table : PinTable} {line : String} {outs outs' : List String}
    (h : Finished table line outs) (h' : Finished table line outs') : outs = outs' := by
  -- a line has one class, so two derivations differ at most in what its dividing comma parts
  cases h with
  | blank hb =>
    have hc := Line.classify_of_isBlank hb
    cases h' with
    | blank _ => rfl
    | binding hc' _ _ _ => cases hc.symm.trans hc'
    | title hc' _ _ => cases hc.symm.trans hc'
    | pin hc' _ _ _ => cases hc.symm.trans hc'
  | binding hc hcontents _ hlook =>
    cases h' with
    | blank hb => cases hc.symm.trans (Line.classify_of_isBlank hb)
    | binding hc' hcontents' _ hlook' =>
      cases hc.symm.trans hc'
      obtain ⟨rfl, rfl⟩ := hcontents.unique hcontents'
      have hloc := List.right_unique_forall₂'
        (fun _ _ _ h1 h2 => Option.some.inj (h1.symm.trans h2)) hlook hlook'
      rw [hloc]
    | title hc' _ _ => cases hc.symm.trans hc'
    | pin hc' _ _ _ => cases hc.symm.trans hc'
  | title hc hd ht =>
    cases h' with
    | blank hb => cases hc.symm.trans (Line.classify_of_isBlank hb)
    | binding hc' _ _ _ => cases hc.symm.trans hc'
    | title _ _ _ => rfl
    | pin _ hd' hne _ =>
      obtain ⟨_, rfl⟩ := hd.unique hd'
      exact absurd ht hne
  | pin hc hd hne hlook =>
    cases h' with
    | blank hb => cases hc.symm.trans (Line.classify_of_isBlank hb)
    | binding hc' _ _ _ => cases hc.symm.trans hc'
    | title _ hd' ht =>
      obtain ⟨_, rfl⟩ := hd.unique hd'
      exact absurd ht hne
    | pin _ hd' _ hlook' =>
      obtain ⟨rfl, rfl⟩ := hd.unique hd'
      cases hlook.symm.trans hlook'
      rfl

/-- Rows that are replaced one by one stay with the lines they come from. -/
theorem exists_finished {table : PinTable} {lines : List String} {outs : List (List String)}
    {located : List String}
    (he : List.Forall₂ (fun line rows => Line.expand line = .ok rows) lines outs)
    (hn : ∀ line ∈ lines, '\n' ∉ line.toList)
    (hl : List.Forall₂ (Located table) outs.flatten located) :
    ∃ done, List.Forall₂ (Finished table) lines done ∧ located = done.flatten := by
  induction he generalizing located with
  | nil =>
    cases hl
    exact ⟨[], .nil, rfl⟩
  | @cons line rows lines outs hline _ ih =>
    rw [List.flatten_cons] at hl
    have hhere := (List.forall₂_take_append located rows outs.flatten hl.flip).flip
    have hlater := (List.forall₂_drop_append located rows outs.flatten hl.flip).flip
    have hfirst : Finished table line (located.take rows.length) :=
      finished_of_located hline (hn line List.mem_cons_self) hhere
    obtain ⟨done, hdone, hrest⟩ := ih (fun l h => hn l (List.mem_cons_of_mem line h)) hlater
    refine ⟨located.take rows.length :: done, .cons hfirst hdone, ?_⟩
    rw [List.flatten_cons, ← hrest, List.take_append_drop]

namespace Pinfile

open Report

theorem succeeds_of_expand_isClean {policy : Policy} {lines : List String}
    (h : (expand policy lines).isClean = true) : ∃ outs, Succeeds expandLine 1 lines outs := by
  have hc : (collect policy expandLine 1 lines).isClean = true := by
    rw [Report.isClean_iff] at h ⊢
    simpa [expand_eq] using h
  obtain ⟨outs, hs, _⟩ := succeeds_of_isClean hc
  exact ⟨outs, hs⟩

theorem isClean_of_build {table : PinTable} {policy : Policy} {text : String}
    (h : (build table policy text).isClean = true) :
    (expand policy (body text)).isClean = true ∧
    (locate table policy (expand policy (body text)).lines).isClean = true ∧
    (build table policy text).lines = (locate table policy (expand policy (body text)).lines).lines := by
  rw [Report.isClean_iff] at h
  rw [build_eq, buildFrom_eq] at h ⊢
  split at h
  · rename_i hstop
    simp only [List.map_eq_nil_iff] at h
    simp [isClean, h] at hstop
  · rename_i hgo
    simp only [List.append_eq_nil_iff, List.map_eq_nil_iff] at h
    simp only [if_neg hgo, and_true]
    exact ⟨Report.isClean_iff.mpr h.1, Report.isClean_iff.mpr h.2⟩

theorem eq_header_of_located {table : PinTable} {out : String} (h : Located table header out) :
    out = header := by
  have ho := locateLine_eq_ok_iff (n := 0).mpr h
  rw [locateLine_header] at ho
  exact (Except.ok.inj ho).symm

/-- The rows of a clean build are the column titles and what the lines of the body come to. -/
theorem build_lines_of_isClean {table : PinTable} {policy : Policy} {text : String}
    (h : (build table policy text).isClean = true) :
    (∃ outs, List.Forall₂ (Finished table) (body text) outs) ∧
    ∀ outs, List.Forall₂ (Finished table) (body text) outs →
      (build table policy text).lines = header :: outs.flatten := by
  obtain ⟨hexpand, hlocate, hlines⟩ := isClean_of_build h
  obtain ⟨rows, hs⟩ := succeeds_of_expand_isClean hexpand
  rw [expand_of_succeeds policy hs, locate_eq] at hlocate hlines
  obtain ⟨located, hls, hflat⟩ := succeeds_of_isClean hlocate
  have hall := forall₂_locate hls
  have hdone : ∃ outs, List.Forall₂ (Finished table) (body text) outs ∧
      located.flatten = header :: outs.flatten := by
    cases hf : located.flatten with
    | nil =>
      rw [hf] at hall
      cases hall
    | cons first rest =>
      rw [hf] at hall
      cases hall with
      | cons hfirst hrest =>
        obtain ⟨outs, ho, rfl⟩ := exists_finished (forall₂_expand hs)
          (fun line hl => newline_not_mem_body hl) hrest
        exact ⟨outs, ho, by rw [eq_header_of_located hfirst]⟩
  obtain ⟨outs, ho, heq⟩ := hdone
  refine ⟨⟨outs, ho⟩, ?_⟩
  intro outs' ho'
  have hout : outs = outs' :=
    List.right_unique_forall₂' (fun _ _ _ h1 h2 => h1.unique h2) ho ho'
  rw [hlines, hflat, heq, hout]

theorem build_lines_of_isClean_stray_comma :
    (build (.ofPairs [("y[7]", "P0"), ("Y[6]", "P1"), ("a,  B c", "P2")]) .halt
      "to , location\nx[0..1], y[#..7]\n\n ,a,  b c\nq, Location").isClean = true ∧
    ∃ outs, List.Forall₂
        (Finished (.ofPairs [("y[7]", "P0"), ("Y[6]", "P1"), ("a,  B c", "P2")]))
        (body "to , location\nx[0..1], y[#..7]\n\n ,a,  b c\nq, Location") outs ∧
      (build (.ofPairs [("y[7]", "P0"), ("Y[6]", "P1"), ("a,  B c", "P2")]) .halt
        "to , location\nx[0..1], y[#..7]\n\n ,a,  b c\nq, Location").lines =
          header :: outs.flatten := by
  have hclean : (build (.ofPairs [("y[7]", "P0"), ("Y[6]", "P1"), ("a,  B c", "P2")]) .halt
      "to , location\nx[0..1], y[#..7]\n\n ,a,  b c\nq, Location").isClean = true := by
    decide +kernel
  obtain ⟨⟨outs, ho⟩, hlines⟩ := build_lines_of_isClean hclean
  exact ⟨hclean, outs, ho, hlines outs ho⟩

example : (build (.ofPairs [("y[7]", "P0"), ("Y[6]", "P1"), ("a,  B c", "P2")]) .halt
    "to , location\nx[0..1], y[#..7]\n\n ,a,  b c\nq, Location").lines =
      ["To, Location", "x[0], P0", "x[1], P1", "", " ,P2", "q, Location"] := by
  decide +kernel

end Pinfile

end Pinout
