import Mathlib
import Pinout.Pinfile.Expansion
import Pinout.Proofs.LineShapes

/-!
The row of column titles. It is looked for anywhere in the first line of a text, so that a line is
taken for it as soon as it has the titles as a part. What is left out is therefore a row of titles
alone, unless the first line has more to it.
-/

namespace Pinout

namespace Pattern

open Text (isSpace)

theorem keyword_eq_some_iff {word cs rest : List Char} :
    keyword word cs = some rest ↔ ∃ w, cs = w ++ rest ∧ w.map Char.toLower = word := by
  induction word generalizing cs with
  | nil =>
    rw [keyword, Option.some.injEq]
    constructor
    · intro h
      exact ⟨[], h, rfl⟩
    · rintro ⟨w, rfl, hw⟩
      rw [List.map_eq_nil_iff.mp hw, List.nil_append]
  | cons k ks ih =>
    cases cs with
    | nil =>
      refine iff_of_false nofun ?_
      rintro ⟨w, hcs, hw⟩
      obtain ⟨rfl, _⟩ := List.append_eq_nil_iff.mp hcs.symm
      cases hw
    | cons c cs =>
      rw [keyword]
      split
      · rename_i hc
        rw [ih]
        constructor
        · rintro ⟨w, rfl, hw⟩
          exact ⟨c :: w, rfl, by rw [List.map_cons, hc, hw]⟩
        · rintro ⟨w, hcs, hw⟩
          obtain ⟨d, w, rfl, _, hrest⟩ := List.map_eq_cons_iff.mp hw
          rw [List.cons_append, List.cons.injEq] at hcs
          exact ⟨w, hcs.2, hrest⟩
      · rename_i hc
        refine iff_of_false nofun ?_
        rintro ⟨w, hcs, hw⟩
        obtain ⟨d, w, rfl, hd, _⟩ := List.map_eq_cons_iff.mp hw
        rw [List.cons_append, List.cons.injEq] at hcs
        exact hc (hcs.1 ▸ hd)

/-- The titles `TO` and `LOCATION` in any letter case, with white space around their comma or
without. -/
structure Titles (p : Pair (List Char)) : Prop where
  left : p.left.map Char.toLower = ['t', 'o']
  right : p.right.map Char.toLower = ['l', 'o', 'c', 'a', 't', 'i', 'o', 'n']
  gap : Blanks p.gap

/-- The titles stand somewhere in the line. -/
def HasTitles (line : List Char) : Prop :=
  ∃ (before : List Char) (p : Pair (List Char)) (after : List Char),
    Titles p ∧ line = before ++ p.chars id ++ after

/-- The titles are the line, up to white space around them. -/
def OnlyTitles (line : List Char) : Prop :=
  ∃ (before : List Char) (p : Pair (List Char)) (after : List Char), Titles p ∧
    (∀ c ∈ before, isSpace c = true) ∧ (∀ c ∈ after, isSpace c = true) ∧
      line = before ++ p.chars id ++ after

theorem OnlyTitles.hasTitles {line : List Char} (h : OnlyTitles line) : HasTitles line := by
  obtain ⟨before, p, after, hp, _, _, hline⟩ := h
  exact ⟨before, p, after, hp, hline⟩

theorem OnlyTitles.toLower_head {c : Char} {cs : List Char} (h : OnlyTitles (c :: cs))
    (hc : isSpace c = false) : c.toLower = 't' := by
  obtain ⟨before, p, after, hp, hbefore, _, hline⟩ := h
  cases before with
  | nil =>
    obtain ⟨t, o, ht, hlower, _⟩ := List.map_eq_cons_iff.mp hp.left
    simp only [Pair.chars, ht, id, List.nil_append, List.cons_append, List.cons.injEq] at hline
    rw [hline.1, hlower]
  | cons d before =>
    rw [List.cons_append, List.cons_append, List.cons.injEq] at hline
    have hspace := hbefore d List.mem_cons_self
    rw [← hline.1, hc] at hspace
    cases hspace

theorem isSpace_of_toLower {c : Char} (h : isWord c.toLower = true) : isSpace c = false := by
  by_cases hu : c.isUpper = true
  · apply isSpace_of_isWord
    simp [isWord, Char.isAlphanum, Char.isAlpha, hu]
  · rw [Char.toLower_eq_of_not_isUpper hu] at h
    exact isSpace_of_isWord h

theorem Titles.ends {p : Pair (List Char)} (h : Titles p) (rest : List Char) :
    Ends isSpace (p.right ++ rest) := by
  obtain ⟨c, cs, hp, hc, _⟩ := List.map_eq_cons_iff.mp h.right
  rw [hp]
  apply Ends.cons
  apply isSpace_of_toLower
  rw [hc]
  decide

theorem headerHere_isSome_iff {cs : List Char} : (headerHere cs).isSome = true ↔
    ∃ p rest, Titles p ∧ cs = p.chars id ++ rest := by
  simp only [Option.isSome_iff_exists, headerHere, bind, Option.bind_eq_some_iff,
    keyword_eq_some_iff, Prod.exists, comma_eq_some_iff]
  constructor
  · rintro ⟨_, tail, ⟨left, rfl, hl⟩, gap, gap', tail', ⟨rfl, hg, _⟩, rest, ⟨right, rfl, hr⟩, _⟩
    exact ⟨⟨left, (gap, gap'), right⟩, rest, ⟨hl, hr, hg⟩, by simp [Pair.chars]⟩
  · rintro ⟨p, rest, hp, rfl⟩
    exact ⟨(), _, ⟨p.left, by simp [Pair.chars], hp.left⟩, p.gap.1, p.gap.2, _,
      ⟨rfl, hp.gap, hp.ends rest⟩, rest, ⟨p.right, rfl, hp.right⟩, rfl⟩

theorem hasHeader_iff {line : List Char} : hasHeader line = true ↔ HasTitles line :=
  first_isSome_iff_of_shape fun _ => headerHere_isSome_iff

end Pattern

namespace Pinfile

open Pattern (HasTitles OnlyTitles)

/-- The lines without the first one where it is a row of titles, by what counts as one. -/
inductive Untitled (titles : List Char → Prop) : List String → List String → Prop where
  | titled {l : String} {ls : List String} : titles l.toList → Untitled titles (l :: ls) ls
  | bare {ls : List String} : (∀ l ∈ ls.head?, ¬ titles l.toList) → Untitled titles ls ls

variable {titles titles' : List Char → Prop} {ls out out' : List String}

theorem Untitled.unique (h : Untitled titles ls out) (h' : Untitled titles ls out') :
    out = out' := by
  cases h with
  | @titled l _ hl =>
    generalize hs : l :: out = all at h'
    cases h' with
    | titled _ =>
      cases hs
      rfl
    | bare hno =>
      subst hs
      exact absurd hl (hno l rfl)
  | bare hno =>
    cases h' with
    | @titled l ls hl => exact absurd hl (hno l rfl)
    | bare _ => rfl

theorem Untitled.congr (he : ∀ l ∈ ls.head?, (titles l.toList ↔ titles' l.toList))
    (h : Untitled titles ls out) : Untitled titles' ls out := by
  cases h with
  | @titled l ls hl => exact .titled ((he l rfl).mp hl)
  | bare hno => exact .bare fun l hl ht => hno l hl ((he l hl).mpr ht)

theorem untitled_body (text : String) : Untitled HasTitles (trimmedLines text) (body text) := by
  rw [body_eq]
  cases trimmedLines text with
  | nil => exact .bare nofun
  | cons l ls =>
    dsimp only
    split
    · rename_i h
      exact .titled (Pattern.hasHeader_iff.mp h)
    · rename_i h
      apply Untitled.bare
      rintro _ ⟨⟩ ht
      exact h (Pattern.hasHeader_iff.mpr ht)

theorem untitled_onlyTitles_iff {text : String} :
    Untitled OnlyTitles (trimmedLines text) (body text) ↔
      ∀ l ∈ (trimmedLines text).head?, HasTitles l.toList → OnlyTitles l.toList := by
  have hbody := untitled_body text
  constructor
  · intro h l hl hhas
    by_contra hno
    obtain ⟨ls, hls⟩ := List.head?_eq_some_iff.mp hl
    rw [hls] at h hbody
    have hout : body text = ls := hbody.unique (.titled hhas)
    have hkept : Untitled OnlyTitles (l :: ls) (l :: ls) := by
      apply Untitled.bare
      rintro _ ⟨⟩
      exact hno
    -- the line would be left out and kept
    have hlen := congrArg List.length ((h.unique hkept).symm.trans hout)
    rw [List.length_cons] at hlen
    omega
  · intro h
    exact hbody.congr fun l hl => ⟨h l hl, OnlyTitles.hasTitles⟩

/-- The first line is left out if it has the column titles anywhere in it; so only a row of titles
alone is left out, unless they are a part of the first line and not all of it. -/
theorem body_leaves_out_titles (text : String) :
    Untitled HasTitles (trimmedLines text) (body text) ∧
    (Untitled OnlyTitles (trimmedLines text) (body text) ↔
      ∀ l ∈ (trimmedLines text).head?, HasTitles l.toList → OnlyTitles l.toList) :=
  ⟨untitled_body text, untitled_onlyTitles_iff⟩

/-- A line of two longer names that hold the titles is lost. -/
theorem body_loses_line_with_titles :
    trimmedLines "GOTO, LOCATION_5\nx,y" = ["GOTO, LOCATION_5", "x,y"] ∧
    body "GOTO, LOCATION_5\nx,y" = ["x,y"] ∧
    ¬ Untitled OnlyTitles (trimmedLines "GOTO, LOCATION_5\nx,y")
      (body "GOTO, LOCATION_5\nx,y") := by
  have hlines : trimmedLines "GOTO, LOCATION_5\nx,y" = ["GOTO, LOCATION_5", "x,y"] := by
    decide +kernel
  have hhas : HasTitles "GOTO, LOCATION_5".toList :=
    Pattern.hasHeader_iff.mp (by decide +kernel)
  refine ⟨hlines, by decide +kernel, fun h => ?_⟩
  have honly := untitled_onlyTitles_iff.mp h "GOTO, LOCATION_5" (by rw [hlines]; rfl) hhas
  exact absurd (honly.toLower_head (c := 'G') (by decide)) (by decide)

end Pinfile

end Pinout
