import Mathlib.Data.List.TakeWhile
import Pinout.Line.Basic

/-!
The shapes of a line as decompositions of its text. A reader succeeds at a place exactly if the
text that follows is written in the shape; a search stops at the first such place.
-/

namespace Pinout.Pattern

open Text (isSpace)

theorem isSpace_of_isWord {c : Char} (h : isWord c = true) : isSpace c = false := by
  change (((decide (65 ≤ c.val ∧ c.val ≤ 90) || (decide (97 ≤ c.val) && decide (c.val ≤ 122))) ||
    (decide (48 ≤ c.val) && decide (c.val ≤ 57))) || c == '_') = true at h
  simp only [Bool.or_eq_true, Bool.and_eq_true, decide_eq_true_eq, beq_iff_eq,
    UInt32.le_iff_toNat_le] at h
  -- the same bounds as numbers, which `omega` can use
  change (((65 ≤ c.toNat ∧ c.toNat ≤ 90) ∨ (97 ≤ c.toNat ∧ c.toNat ≤ 122)) ∨
    (48 ≤ c.toNat ∧ c.toNat ≤ 57)) ∨ c = '_' at h
  rw [Bool.eq_false_iff]
  intro hs
  simp only [isSpace, Text.blankRuns, List.any_cons, List.any_nil, Bool.or_false, Bool.or_eq_true,
    Bool.and_eq_true, decide_eq_true_eq] at hs
  rcases h with h | rfl
  · omega
  · simp at hs

theorem isWord_of_isDigit {c : Char} (h : c.isDigit = true) : isWord c = true := by
  simp [isWord, Char.isAlphanum, h]

theorem trimChars_of_isWord {cs : List Char} (h : ∀ c ∈ cs, isWord c = true) :
    Text.trimChars cs = cs :=
  Text.trimChars_of_not_isSpace fun c hc => isSpace_of_isWord (h c hc)

theorem first_of_here {α : Type} {p : List Char → Option α} {cs : List Char} {a : α}
    (h : p cs = some a) : first p cs = some a := by
  cases cs with
  | nil => exact h
  | cons c cs => rw [first, h]

/-- A search takes the first place where anything can be read. -/
theorem leftmost_of_first {α : Type} {p : List Char → Option α} {cs : List Char} {x : α}
    (h : first p cs = some x) : ∃ before rest, cs = before ++ rest ∧ p rest = some x ∧
      ∀ b r, cs = b ++ r → (p r).isSome = true → before.length ≤ b.length := by
  induction cs with
  | nil => exact ⟨[], [], rfl, h, fun b _ _ _ => Nat.zero_le b.length⟩
  | cons c cs ih =>
    rw [first] at h
    cases hp : p (c :: cs) with
    | some y =>
      rw [hp] at h
      exact ⟨[], c :: cs, rfl, hp.trans h, fun b _ _ _ => Nat.zero_le b.length⟩
    | none =>
      rw [hp] at h
      obtain ⟨before, rest, rfl, hx, hleast⟩ := ih h
      refine ⟨c :: before, rest, rfl, hx, ?_⟩
      intro b r hb hr
      cases b with
      -- nothing can be read from the whole text
      | nil =>
        rw [List.nil_append] at hb
        rw [← hb, hp] at hr
        cases hr
      | cons d b =>
        rw [List.cons_append, List.cons.injEq] at hb
        exact Nat.succ_le_succ (hleast b r hb.2 hr)

theorem exists_of_first {α : Type} {p : List Char → Option α} {cs : List Char} {a : α}
    (h : first p cs = some a) : ∃ pre post, cs = pre ++ post ∧ p post = some a := by
  obtain ⟨pre, post, hcs, ha, _⟩ := leftmost_of_first h
  exact ⟨pre, post, hcs, ha⟩

/-- No more than `a` can be read from `a ++ rest` if `rest` does not go on in the class. -/
def Ends (p : Char → Bool) (rest : List Char) : Prop := ∀ c cs, rest = c :: cs → p c = false

theorem Ends.cons {p : Char → Bool} {c : Char} (h : p c = false) (cs : List Char) :
    Ends p (c :: cs) := by
  intro d ds he
  cases he
  exact h

theorem takeWhile_append_of_ends {p : Char → Bool} {a rest : List Char}
    (ha : ∀ c ∈ a, p c = true) (hr : Ends p rest) : (a ++ rest).takeWhile p = a := by
  rw [List.takeWhile_append_of_pos ha]
  cases rest with
  | nil => simp
  | cons c cs => simp [hr c cs rfl]

theorem dropWhile_append_of_ends {p : Char → Bool} {a rest : List Char}
    (ha : ∀ c ∈ a, p c = true) (hr : Ends p rest) : (a ++ rest).dropWhile p = rest := by
  rw [List.dropWhile_append_of_pos ha]
  cases rest with
  | nil => rfl
  | cons c cs => simp [hr c cs rfl]

theorem ends_dropWhile (p : Char → Bool) (cs : List Char) : Ends p (cs.dropWhile p) := by
  intro c rest h
  have hh := List.head?_dropWhile_not p cs
  rw [h] at hh
  simpa using hh

theorem run_eq_some_iff_append {p : Char → Bool} {cs a rest : List Char} :
    run p cs = some (a, rest) ↔
      cs = a ++ rest ∧ a ≠ [] ∧ (∀ c ∈ a, p c = true) ∧ Ends p rest := by
  rw [run_eq_some_iff]
  constructor
  · intro h
    obtain ⟨ha, rfl, rfl⟩ := h
    refine ⟨List.takeWhile_append_dropWhile.symm, ha, ?_, ends_dropWhile p cs⟩
    exact fun c hc => List.mem_takeWhile_imp hc
  · intro h
    obtain ⟨rfl, ha, hp, hr⟩ := h
    exact ⟨ha, takeWhile_append_of_ends hp hr, dropWhile_append_of_ends hp hr⟩

/-- White space on either side of a comma. -/
def Blanks (gap : List Char × List Char) : Prop :=
  (∀ c ∈ gap.1, isSpace c = true) ∧ ∀ c ∈ gap.2, isSpace c = true

theorem comma_eq_some_iff {cs rest : List Char} {gap : List Char × List Char} :
    comma cs = some (gap, rest) ↔
      cs = gap.1 ++ ',' :: (gap.2 ++ rest) ∧ Blanks gap ∧ Ends isSpace rest := by
  simp only [comma, bind, Option.bind_eq_some_iff, mark_eq_some_iff, pure, Option.some.injEq,
    Prod.mk.injEq]
  constructor
  · intro h
    obtain ⟨tail, ht, rfl, rfl⟩ := h
    refine ⟨?_, ⟨fun c hc => List.mem_takeWhile_imp hc, fun c hc => List.mem_takeWhile_imp hc⟩,
      ends_dropWhile isSpace tail⟩
    rw [List.takeWhile_append_dropWhile, ← ht, List.takeWhile_append_dropWhile]
  · intro h
    obtain ⟨rfl, ⟨h1, h2⟩, hr⟩ := h
    have hc : Ends isSpace (',' :: (gap.2 ++ rest)) := Ends.cons (by decide) _
    refine ⟨gap.2 ++ rest, dropWhile_append_of_ends h1 hc, ?_, dropWhile_append_of_ends h2 hr⟩
    rw [takeWhile_append_of_ends h1 hc, takeWhile_append_of_ends h2 hr]

/-- A name and a bracketed text as they can be read: neither is empty, and the first closing bracket
is the last character. -/
structure Bracketed.WellFormed (b : Bracketed) : Prop where
  name_ne_nil : b.name ≠ []
  isWord_name : ∀ c ∈ b.name, isWord c = true
  inner_ne_nil : b.inner ≠ []
  not_mem_inner : ']' ∉ b.inner

theorem bracketed_eq_some_iff {cs rest : List Char} {b : Bracketed} :
    bracketed cs = some (b, rest) ↔ cs = b.chars ++ rest ∧ b.WellFormed := by
  obtain ⟨name, inner⟩ := b
  simp only [bracketed, bind, Option.bind_eq_some_iff, Prod.exists, pure, Option.some.injEq,
    Prod.mk.injEq, Bracketed.mk.injEq, run_eq_some_iff_append, mark_eq_some_iff]
  constructor
  · intro h
    obtain ⟨n, _, ⟨rfl, hn, hw, _⟩, _, rfl, i, _, ⟨rfl, hi, hb, _⟩, _, rfl, ⟨rfl, rfl⟩, rfl⟩ := h
    refine ⟨by simp [Bracketed.chars], hn, hw, hi, fun hmem => ?_⟩
    simpa using hb _ hmem
  · intro h
    obtain ⟨rfl, hn, hw, hi, hb⟩ := h
    refine ⟨name, '[' :: (inner ++ ']' :: rest), ⟨by simp [Bracketed.chars], hn, hw, ?_⟩, _, rfl,
      inner, ']' :: rest, ⟨rfl, hi, ?_, ?_⟩, rest, rfl, ⟨rfl, rfl⟩, rfl⟩
    · exact .cons (by decide) _
    · intro c hc
      have hne : c ≠ ']' := fun he => hb (he ▸ hc)
      simpa using hne
    · exact .cons (by decide) _

theorem Ends.of_bracketed {b : Bracketed} (hb : b.WellFormed) (rest : List Char) :
    Ends isSpace (b.chars ++ rest) := by
  intro c cs h
  obtain ⟨d, ds, hd⟩ := List.exists_cons_of_ne_nil hb.name_ne_nil
  simp only [Bracketed.chars, hd, List.cons_append, List.cons.injEq] at h
  obtain ⟨rfl, _⟩ := h
  exact isSpace_of_isWord (hb.isWord_name d (hd ▸ List.mem_cons_self))

theorem pair_eq_some_iff {α : Type} {operand : List Char → Option (α × List Char)}
    {cs : List Char} {p : Pair α} :
    pair operand cs = some p ↔ ∃ middle tail rest, operand cs = some (p.left, middle) ∧
      comma middle = some (p.gap, tail) ∧ operand tail = some (p.right, rest) := by
  obtain ⟨left, gap, right⟩ := p
  simp only [pair, bind, Option.bind_eq_some_iff, Prod.exists, pure, Option.some.injEq,
    Pair.mk.injEq]
  constructor
  · intro h
    obtain ⟨_, middle, hl, _, _, tail, hc, _, rest, hr, rfl, rfl, rfl⟩ := h
    exact ⟨middle, tail, rest, hl, hc, hr⟩
  · intro h
    obtain ⟨middle, tail, rest, hl, hc, hr⟩ := h
    exact ⟨left, middle, hl, gap.1, gap.2, tail, hc, right, rest, hr, rfl, rfl, rfl⟩

theorem pair_bracketed_eq_some_iff {cs : List Char} {p : Pair Bracketed} :
    pair bracketed cs = some p ↔ p.left.WellFormed ∧ p.right.WellFormed ∧ Blanks p.gap ∧
      ∃ rest, cs = p.chars Bracketed.chars ++ rest := by
  simp only [pair_eq_some_iff, bracketed_eq_some_iff, comma_eq_some_iff]
  constructor
  · intro h
    obtain ⟨_, _, rest, ⟨rfl, hl⟩, ⟨rfl, hg, _⟩, rfl, hr⟩ := h
    exact ⟨hl, hr, hg, rest, by simp [Pair.chars]⟩
  · intro h
    obtain ⟨hl, hr, hg, rest, rfl⟩ := h
    exact ⟨_, _, rest, ⟨by simp [Pair.chars], hl⟩, ⟨rfl, hg, .of_bracketed hr rest⟩, rfl, hr⟩

theorem binding?_of_chars {p : Pair Bracketed} (hl : p.left.WellFormed) (hr : p.right.WellFormed)
    (hg : Blanks p.gap) (rest : List Char) :
    binding? (p.chars Bracketed.chars ++ rest) = some p :=
  first_of_here (pair_bracketed_eq_some_iff.mpr ⟨hl, hr, hg, rest, rfl⟩)

theorem wellFormed_of_binding? {cs : List Char} {p : Pair Bracketed} (h : binding? cs = some p) :
    p.left.WellFormed ∧ p.right.WellFormed := by
  obtain ⟨_, _, _, hp⟩ := exists_of_first h
  obtain ⟨hl, hr, _⟩ := pair_bracketed_eq_some_iff.mp hp
  exact ⟨hl, hr⟩

theorem mem_comma_of_binding? {cs : List Char} {p : Pair Bracketed} (h : binding? cs = some p) :
    ',' ∈ cs := by
  obtain ⟨_, _, rfl, hp⟩ := exists_of_first h
  obtain ⟨_, _, _, _, rfl⟩ := pair_bracketed_eq_some_iff.mp hp
  simp [Pair.chars]

theorem first_isSome_iff {α : Type} {p : List Char → Option α} {cs : List Char} :
    (first p cs).isSome = true ↔ ∃ before rest, cs = before ++ rest ∧ (p rest).isSome = true := by
  constructor
  · intro h
    obtain ⟨a, ha⟩ := Option.isSome_iff_exists.mp h
    obtain ⟨before, rest, hcs, hp⟩ := exists_of_first ha
    exact ⟨before, rest, hcs, by simp [hp]⟩
  · rintro ⟨before, rest, rfl, h⟩
    induction before with
    | nil =>
      obtain ⟨a, ha⟩ := Option.isSome_iff_exists.mp h
      rw [List.nil_append, first_of_here ha]
      rfl
    | cons c before ih =>
      rw [List.cons_append, first]
      cases p (c :: (before ++ rest)) with
      | some a => rfl
      | none => exact ih

/-- A search for a shape finds it wherever it stands in the line. -/
theorem first_isSome_iff_of_shape {α β : Type} {p : List Char → Option β} {ok : α → Prop}
    {shape : α → List Char}
    (h : ∀ cs, (p cs).isSome = true ↔ ∃ a rest, ok a ∧ cs = shape a ++ rest)
    {line : List Char} : (first p line).isSome = true ↔
      ∃ before a after, ok a ∧ line = before ++ shape a ++ after := by
  rw [first_isSome_iff]
  constructor
  · intro hfirst
    obtain ⟨before, rest, hline, hp⟩ := hfirst
    obtain ⟨a, after, ha, hrest⟩ := (h rest).mp hp
    exact ⟨before, a, after, ha, by rw [hline, hrest, List.append_assoc]⟩
  · intro hsome
    obtain ⟨before, a, after, ha, hline⟩ := hsome
    refine ⟨before, shape a ++ after, by rw [hline, List.append_assoc], ?_⟩
    exact (h _).mpr ⟨a, after, ha, rfl⟩

/-- Somewhere in the line stands `NAME[..], NAME[..]`. -/
def HasBinding (line : List Char) : Prop :=
  ∃ (before : List Char) (p : Pair Bracketed) (after : List Char),
    p.left.WellFormed ∧ p.right.WellFormed ∧ Blanks p.gap ∧
      line = before ++ p.chars Bracketed.chars ++ after

/-- Somewhere in the line a comma stands between two characters of names, with nothing but white
space on its sides. -/
def HasNames (line : List Char) : Prop :=
  ∃ (before : List Char) (c : Char) (gap : List Char × List Char) (d : Char) (after : List Char),
    isWord c = true ∧ isWord d = true ∧ Blanks gap ∧
      line = before ++ c :: (gap.1 ++ ',' :: (gap.2 ++ d :: after))

theorem binding?_isSome_iff {line : List Char} :
    (binding? line).isSome = true ↔ HasBinding line := by
  have hpair : ∀ cs, (pair bracketed cs).isSome = true ↔
      ∃ (p : Pair Bracketed) (rest : List Char),
        (p.left.WellFormed ∧ p.right.WellFormed ∧ Blanks p.gap) ∧
          cs = p.chars Bracketed.chars ++ rest := by
    intro cs
    simp only [Option.isSome_iff_exists, pair_bracketed_eq_some_iff, exists_and_left, and_assoc]
  rw [binding?, first_isSome_iff_of_shape hpair]
  simp only [HasBinding, and_assoc]

theorem binding?_eq_none_iff {line : List Char} : binding? line = none ↔ ¬HasBinding line := by
  rw [← binding?_isSome_iff, Bool.not_eq_true, Option.isSome_eq_false_iff, Option.isNone_iff_eq_none]

theorem run_isSome_of_isWord {d : Char} (h : isWord d = true) (after : List Char) :
    ∃ name rest, run isWord (d :: after) = some (name, rest) := by
  refine ⟨(d :: after).takeWhile isWord, (d :: after).dropWhile isWord, ?_⟩
  apply run_eq_some_iff.mpr
  exact ⟨by simp [h], rfl, rfl⟩

theorem Ends.of_blanks {gap : List Char × List Char} (h : Blanks gap) (rest : List Char) :
    Ends isWord (gap.1 ++ ',' :: rest) := by
  intro c cs he
  cases hg : gap.1 with
  | nil =>
    rw [hg, List.nil_append, List.cons.injEq] at he
    rw [← he.1]
    decide
  | cons s ss =>
    rw [hg, List.cons_append, List.cons.injEq] at he
    have hs : isSpace c = true := h.1 c (by simp [hg, he.1])
    rw [Bool.eq_false_iff]
    intro hw
    rw [isSpace_of_isWord hw] at hs
    cases hs

theorem names?_isSome_iff {line : List Char} : (names? line).isSome = true ↔ HasNames line := by
  rw [names?, first_isSome_iff]
  constructor
  · rintro ⟨before, rest, rfl, h⟩
    obtain ⟨p, hp⟩ := Option.isSome_iff_exists.mp h
    obtain ⟨middle, tail, last, hl, hc, hr⟩ := pair_eq_some_iff.mp hp
    obtain ⟨rfl, hlne, hlw, _⟩ := run_eq_some_iff_append.mp hl
    obtain ⟨rfl, hg, _⟩ := comma_eq_some_iff.mp hc
    obtain ⟨rfl, hrne, hrw, _⟩ := run_eq_some_iff_append.mp hr
    -- the comma parts the last character of the left name from the first of the right one
    obtain ⟨n, c, hn⟩ := (List.eq_nil_or_concat p.left).resolve_left hlne
    obtain ⟨d, m, hm⟩ := List.exists_cons_of_ne_nil hrne
    refine ⟨before ++ n, c, p.gap, d, m ++ last, hlw c ?_, hrw d ?_, hg, ?_⟩
    · simp [hn]
    · simp [hm]
    · simp [hn, hm]
  · rintro ⟨before, c, gap, d, after, hc, hd, hg, rfl⟩
    obtain ⟨name, rest, hname⟩ := run_isSome_of_isWord hd after
    have hend : Ends isSpace (d :: after) := .cons (isSpace_of_isWord hd) after
    have hleft : run isWord (c :: (gap.1 ++ ',' :: (gap.2 ++ d :: after))) =
        some ([c], gap.1 ++ ',' :: (gap.2 ++ d :: after)) :=
      run_eq_some_iff_append.mpr ⟨rfl, by simp, by simp [hc], .of_blanks hg _⟩
    have hcomma : comma (gap.1 ++ ',' :: (gap.2 ++ d :: after)) = some (gap, d :: after) :=
      comma_eq_some_iff.mpr ⟨rfl, hg, hend⟩
    have hpair : pair (run isWord) (c :: (gap.1 ++ ',' :: (gap.2 ++ d :: after))) =
        some ⟨[c], gap, name⟩ :=
      pair_eq_some_iff.mpr ⟨_, _, rest, hleft, hcomma, hname⟩
    refine ⟨before, _, rfl, ?_⟩
    rw [hpair]
    rfl

/-- In a line with two names around a comma, the comma follows the first name or white space. -/
theorem exists_comma_of_names? {cs : List Char} (h : (names? cs).isSome) :
    ∃ before d after, cs = before ++ d :: ',' :: after ∧ (isWord d = true ∨ isSpace d = true) := by
  obtain ⟨before, c, gap, d, after, hc, _, hg, rfl⟩ := names?_isSome_iff.mp h
  -- the character before the comma is white space if there is any, else the last of the name
  rcases List.eq_nil_or_concat gap.1 with he | ⟨g, s, he⟩
  · exact ⟨before, c, gap.2 ++ d :: after, by simp [he], Or.inl hc⟩
  · refine ⟨before ++ c :: g, s, gap.2 ++ d :: after, by simp [he], Or.inr (hg.1 s ?_)⟩
    simp [he]

instance (line : List Char) : Decidable (HasBinding line) :=
  decidable_of_iff ((binding? line).isSome = true) binding?_isSome_iff

instance (line : List Char) : Decidable (HasNames line) :=
  decidable_of_iff ((names? line).isSome = true) names?_isSome_iff

end Pinout.Pattern
