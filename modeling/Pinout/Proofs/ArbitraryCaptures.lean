import Pinout.Proofs.IdealTerms
import Pinout.Proofs.WrittenSpecifiers

/-!
Expansion from captures of any number and content, whether a text has them or not. All of them are
read before anything else is looked at, and then no more than three of them count, except in a list.
-/

namespace Pinout

namespace Numeral

theorem read?_plus (ds : List Char) :
    read? ('+' :: ds) = if isNumeral ds = true then some (value ds) else none := rfl

theorem read?_of_not_plus {cs : List Char} (h : ∀ ds, cs ≠ '+' :: ds) :
    read? cs = if isNumeral cs = true then some (value cs) else none := by
  unfold read?
  split
  · rename_i ds
    exact absurd rfl (h ds)
  · rfl

end Numeral

namespace Index

/-- Digits, after a plus sign or none, whose value is the index. -/
def Decimal (c : String) (i : Index) : Prop :=
  ∃ ds : List Char, (c.toList = ds ∨ c.toList = '+' :: ds) ∧ ds ≠ [] ∧
    (∀ d ∈ ds, d.isDigit = true) ∧ Numeral.value ds = i.toNat

def IsDecimal (c : String) : Prop := ∃ i, Decimal c i

theorem decimal_iff_spells {c : String} {i : Index} : Decimal c i ↔ Spells c i := by
  unfold Spells
  constructor
  · intro h
    obtain ⟨ds, hc, hne, hdigits, hvalue⟩ := h
    have hnumeral : Numeral.isNumeral ds = true := Numeral.isNumeral_iff.mpr ⟨hne, hdigits⟩
    rcases hc with hc | hc
    · rw [hc, Numeral.read?_of_isNumeral hnumeral, hvalue]
    · rw [hc, Numeral.read?_plus, if_pos hnumeral, hvalue]
  · intro h
    by_cases hplus : ∃ ds, c.toList = '+' :: ds
    · obtain ⟨ds, hc⟩ := hplus
      rw [hc, Numeral.read?_plus, Option.ite_none_right_eq_some, Option.some.injEq] at h
      obtain ⟨hne, hdigits⟩ := Numeral.isNumeral_iff.mp h.1
      exact ⟨ds, Or.inr hc, hne, hdigits, h.2⟩
    · rw [Numeral.read?_of_not_plus (not_exists.mp hplus), Option.ite_none_right_eq_some,
        Option.some.injEq] at h
      obtain ⟨hne, hdigits⟩ := Numeral.isNumeral_iff.mp h.1
      exact ⟨c.toList, Or.inl rfl, hne, hdigits, h.2⟩

theorem isDecimal_iff {c : String} : IsDecimal c ↔ ∃ i, ofText? c = some i := by
  simp only [IsDecimal, decimal_iff_spells, spells_iff]

instance (c : String) (i : Index) : Decidable (Decimal c i) :=
  decidable_of_iff (Spells c i) decimal_iff_spells.symm

instance (c : String) : Decidable (IsDecimal c) :=
  decidable_of_iff ((ofText? c).isSome = true) (Option.isSome_iff_exists.trans isDecimal_iff.symm)

theorem ofText?_eq_none {c : String} (h : ¬ IsDecimal c) : ofText? c = none := by
  apply Option.eq_none_iff_forall_ne_some.mpr
  intro i hi
  exact h (isDecimal_iff.mpr ⟨i, hi⟩)

end Index

namespace Grammar

open Index (Decimal IsDecimal)

/-- The capture is the first of them that is not a decimal index. -/
def FirstUnread (captures : List String) (c : String) : Prop :=
  ∃ earlier later, captures = earlier ++ c :: later ∧ (∀ d ∈ earlier, IsDecimal d) ∧ ¬ IsDecimal c

/-- The values that count where every capture has its place; a missing one counts as zero. -/
def firstThree (values : List Index) : List Index :=
  [values.getD 0 0, values.getD 1 0, values.getD 2 0]

theorem firstUnread_or_decimals (captures : List String) :
    (∃ c, FirstUnread captures c) ∨ ∃ values, List.Forall₂ Decimal captures values := by
  induction captures with
  | nil => exact Or.inr ⟨[], .nil⟩
  | cons d captures ih =>
    by_cases hd : IsDecimal d
    · rcases ih with ⟨c, earlier, later, rfl, hearlier, hno⟩ | ⟨values, hvalues⟩
      · exact Or.inl ⟨c, d :: earlier, later, rfl, List.forall_mem_cons.mpr ⟨hd, hearlier⟩, hno⟩
      · obtain ⟨i, hi⟩ := hd
        exact Or.inr ⟨i :: values, .cons hi hvalues⟩
    · exact Or.inl ⟨d, [], captures, rfl, nofun, hd⟩

theorem expand_of_firstUnread {captures : List String} {c : String}
    (h : FirstUnread captures c) (g : Grammar) (sibling : Option (List Index)) :
    g.expand captures sibling = .error (.numberOutOfRange c) := by
  obtain ⟨earlier, later, rfl, hearlier, hno⟩ := h
  have hread : ∀ d ∈ earlier, ∃ i, Index.ofText? d = some i := by
    intro d hd
    exact Index.isDecimal_iff.mp (hearlier d hd)
  rw [expand, readIndices_append_of_none hread (Index.ofText?_eq_none hno)]

theorem expand_of_decimals {captures : List String} {values : List Index}
    (h : List.Forall₂ Decimal captures values) (g : Grammar) (sibling : Option (List Index)) :
    g.expand captures sibling = g.indices values sibling :=
  expand_of_spells (h.imp fun _ _ => Index.decimal_iff_spells.mp) sibling

theorem indices_none {g : Grammar} (hg : g.family = .implicit) (values : List Index) :
    g.indices values none = .error (.missingSibling g) := by
  cases g with
  | list | range | strideTo | stride => cases hg
  | reuse | shift | countUp | countDown | strideAlong => rfl

theorem indices_firstThree {g : Grammar} (hg : g ≠ list) (values : List Index)
    (sibling : Option (List Index)) :
    g.indices (firstThree values) sibling = g.indices values sibling := by
  cases g with
  | list => exact absurd rfl hg
  | range | strideTo | stride => rfl
  | reuse | shift | countUp | countDown | strideAlong => cases sibling <;> rfl

theorem indices_of_explicit {g : Grammar} (hg : g.family = .explicit) (values : List Index)
    (sibling : Option (List Index)) : g.indices values sibling = g.indices values none := by
  cases g with
  | list | range | strideTo | stride => rfl
  | reuse | shift | countUp | countDown | strideAlong => cases hg

theorem expand_of_explicit {g : Grammar} (hg : g.family = .explicit) (captures : List String)
    (sibling : Option (List Index)) : g.expand captures sibling = g.expand captures none := by
  unfold expand
  cases readIndices captures with
  | error e => rfl
  | ok values => exact indices_of_explicit hg values sibling

/-- A capture that is no decimal index is an error before everything else, wherever it stands. If
there is none, a missing sibling is the next error, and then the first three values decide, in a
list all of them; a sibling matters to implicit grammars only. -/
theorem expand_reads_every_capture :
    (∀ captures, (∃ c, FirstUnread captures c) ∨ ∃ values, List.Forall₂ Decimal captures values) ∧
    (∀ g captures sibling c, FirstUnread captures c →
      Grammar.expand g captures sibling = .error (.numberOutOfRange c)) ∧
    (∀ g captures values, List.Forall₂ Decimal captures values → Grammar.family g = .implicit →
      g.expand captures none = .error (.missingSibling g)) ∧
    (∀ g captures captures' values values' sibling, g ≠ list →
      List.Forall₂ Decimal captures values → List.Forall₂ Decimal captures' values' →
        firstThree values = firstThree values' →
          g.expand captures sibling = g.expand captures' sibling) ∧
    (∀ captures values sibling, List.Forall₂ Decimal captures values →
      list.expand captures sibling = .ok values) ∧
    ∀ g captures sibling, Grammar.family g = .explicit →
      g.expand captures sibling = g.expand captures none := by
  refine ⟨firstUnread_or_decimals, ?_, ?_, ?_, ?_, ?_⟩
  · intro g captures sibling c hc
    exact expand_of_firstUnread hc g sibling
  · intro g captures values hvalues hg
    rw [expand_of_decimals hvalues, indices_none hg]
  · intro g captures captures' values values' sibling hg hvalues hvalues' hthree
    calc g.expand captures sibling
        = g.indices (firstThree values) sibling := by
          rw [expand_of_decimals hvalues, indices_firstThree hg]
      _ = g.indices (firstThree values') sibling := by rw [hthree]
      _ = g.expand captures' sibling := by
          rw [expand_of_decimals hvalues', indices_firstThree hg]
  · intro captures values sibling hvalues
    rw [expand_of_decimals hvalues, indices]
  · intro g captures sibling hg
    exact expand_of_explicit hg captures sibling

/-- A lone plus sign stands behind all the captures that count; without it, one of four is left
over and others are missing. -/
theorem expand_reads_every_capture_beyond_third :
    FirstUnread ["7", "02", "9", "+", "18446744073709551616"] "+" ∧
    Grammar.expand .reuse ["7", "02", "9", "+", "18446744073709551616"] none =
      .error (.numberOutOfRange "+") ∧
    List.Forall₂ Decimal ["+7", "02", "0", "5"] [7, 2, 0, 5] ∧
    Grammar.expand .shift ["+7", "02", "0", "5"] none = .error (.missingSibling .shift) ∧
    List.Forall₂ Decimal ["007", "2"] [7, 2] ∧
    Grammar.expand .strideTo ["+7", "02", "0", "5"] none =
      Grammar.expand .strideTo ["007", "2"] none ∧
    Grammar.expand .list ["+7", "02", "0", "5"] (some [3]) = .ok [7, 2, 0, 5] ∧
    Grammar.expand .range ["x"] (some [3]) = Grammar.expand .range ["x"] none := by
  obtain ⟨_, hunread, hmissing, hthree, hlist, hexplicit⟩ := expand_reads_every_capture
  have hplus : FirstUnread ["7", "02", "9", "+", "18446744073709551616"] "+" :=
    ⟨["7", "02", "9"], ["18446744073709551616"], rfl, by decide +kernel, by decide +kernel⟩
  have hfour : List.Forall₂ Decimal ["+7", "02", "0", "5"] [7, 2, 0, 5] :=
    .cons (by decide +kernel) (.cons (by decide +kernel) (.cons (by decide +kernel)
      (.cons (by decide +kernel) .nil)))
  have htwo : List.Forall₂ Decimal ["007", "2"] [7, 2] :=
    .cons (by decide +kernel) (.cons (by decide +kernel) .nil)
  exact ⟨hplus, hunread _ _ _ _ hplus, hfour, hmissing _ _ _ hfour rfl, htwo,
    hthree _ _ _ _ _ _ nofun hfour htwo rfl, hlist _ _ _ hfour, hexplicit _ _ _ rfl⟩

end Grammar

end Pinout
