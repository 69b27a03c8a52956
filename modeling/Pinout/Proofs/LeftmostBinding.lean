import Pinout.Proofs.LineShapes

/-!
Which binding a line is read as. Of the places where one can be read the first is taken, and there
is one way to read it there. A line without a binding is classed by its names, or as blank.
-/

namespace Pinout

namespace Pattern

/-- The line is `before`, then a binding `NAME[..], NAME[..]`, then `after`. -/
structure BindingAt (line before : List Char) (p : Pair Bracketed) (after : List Char) : Prop where
  left : p.left.WellFormed
  right : p.right.WellFormed
  gap : Blanks p.gap
  chars : line = before ++ p.chars Bracketed.chars ++ after

/-- No binding of the line stands further to the left. -/
structure LeftmostBinding (line before : List Char) (p : Pair Bracketed) (after : List Char) :
    Prop where
  here : BindingAt line before p after
  first : ∀ b q a, BindingAt line b q a → before.length ≤ b.length

theorem bindingAt_iff {line before after : List Char} {p : Pair Bracketed} :
    BindingAt line before p after ↔ ∃ rest, line = before ++ rest ∧
      pair bracketed rest = some p ∧ rest = p.chars Bracketed.chars ++ after := by
  constructor
  · intro h
    refine ⟨_, by rw [h.chars, List.append_assoc], ?_, rfl⟩
    exact pair_bracketed_eq_some_iff.mpr ⟨h.left, h.right, h.gap, after, rfl⟩
  · rintro ⟨rest, rfl, hp, hrest⟩
    obtain ⟨hl, hr, hg, _⟩ := pair_bracketed_eq_some_iff.mp hp
    exact ⟨hl, hr, hg, by rw [hrest, List.append_assoc]⟩

theorem hasBinding_iff {line : List Char} :
    HasBinding line ↔ ∃ before p after, BindingAt line before p after := by
  constructor
  · rintro ⟨before, p, after, hl, hr, hg, hline⟩
    exact ⟨before, p, after, hl, hr, hg, hline⟩
  · rintro ⟨before, p, after, h⟩
    exact ⟨before, p, after, h.left, h.right, h.gap, h.chars⟩

theorem leftmostBinding_of_binding? {line : List Char} {p : Pair Bracketed}
    (h : binding? line = some p) : ∃ before after, LeftmostBinding line before p after := by
  obtain ⟨before, rest, hline, hp, hleast⟩ := leftmost_of_first h
  obtain ⟨_, _, _, after, hrest⟩ := pair_bracketed_eq_some_iff.mp hp
  refine ⟨before, after, bindingAt_iff.mpr ⟨rest, hline, hp, hrest⟩, ?_⟩
  intro b q a hb
  obtain ⟨r, hr, hq, _⟩ := bindingAt_iff.mp hb
  exact hleast b r hr (Option.isSome_of_eq_some hq)

theorem BindingAt.unique {line b a b' a' : List Char} {p p' : Pair Bracketed}
    (h : BindingAt line b p a) (h' : BindingAt line b' p' a') (hlen : b.length = b'.length) :
    b = b' ∧ p = p' ∧ a = a' := by
  obtain ⟨r, hr, hp, hra⟩ := bindingAt_iff.mp h
  obtain ⟨r', hr', hp', hra'⟩ := bindingAt_iff.mp h'
  obtain ⟨rfl, rfl⟩ := List.append_inj (hr.symm.trans hr') hlen
  rw [hp, Option.some.injEq] at hp'
  subst hp'
  exact ⟨rfl, rfl, List.append_cancel_left (hra.symm.trans hra')⟩

theorem LeftmostBinding.unique {line b a b' a' : List Char} {p p' : Pair Bracketed}
    (h : LeftmostBinding line b p a) (h' : LeftmostBinding line b' p' a') :
    b = b' ∧ p = p' ∧ a = a' := by
  apply h.here.unique h'.here
  exact Nat.le_antisymm (h.first _ _ _ h'.here) (h'.first _ _ _ h.here)

/-- The left name takes every character that it can. -/
theorem LeftmostBinding.isWord_eq_false {line front after : List Char} {c : Char}
    {p : Pair Bracketed} (h : LeftmostBinding line (front ++ [c]) p after) : isWord c = false := by
  rw [Bool.eq_false_iff]
  intro hc
  have hl : Bracketed.WellFormed ⟨c :: p.left.name, p.left.inner⟩ := by
    refine ⟨List.cons_ne_nil c _, ?_, h.here.left.inner_ne_nil, h.here.left.not_mem_inner⟩
    exact List.forall_mem_cons.mpr ⟨hc, h.here.left.isWord_name⟩
  have hlonger : BindingAt line front
      ⟨⟨c :: p.left.name, p.left.inner⟩, p.gap, p.right⟩ after := by
    refine ⟨hl, h.here.right, h.here.gap, ?_⟩
    rw [h.here.chars]
    simp [Pair.chars, Bracketed.chars]
  have hle := h.first _ _ _ hlonger
  rw [List.length_append, List.length_singleton] at hle
  omega

theorem exists_leftmostBinding {line : List Char} (h : HasBinding line) :
    ∃ before p after, LeftmostBinding line before p after := by
  obtain ⟨p, hp⟩ := Option.isSome_iff_exists.mp (binding?_isSome_iff.mpr h)
  obtain ⟨before, after, hleft⟩ := leftmostBinding_of_binding? hp
  exact ⟨before, p, after, hleft⟩

theorem binding?_of_leftmostBinding {line before after : List Char} {p : Pair Bracketed}
    (h : LeftmostBinding line before p after) : binding? line = some p := by
  have hsome : (binding? line).isSome = true :=
    binding?_isSome_iff.mpr (hasBinding_iff.mpr ⟨before, p, after, h.here⟩)
  obtain ⟨q, hq⟩ := Option.isSome_iff_exists.mp hsome
  obtain ⟨b, a, hleft⟩ := leftmostBinding_of_binding? hq
  rw [hq, (hleft.unique h).2.1]

end Pattern

namespace Line

open Pattern

/-- The name as it stands, and the trimmed text between the brackets. -/
def sideOf (b : Bracketed) : Side := ⟨String.ofList b.name, trimmed b.inner⟩

/-- The class of a line: the binding furthest to the left if there is one, else two names around a
comma, else nothing but white space. -/
inductive Classed (text : String) : Except LineFault Line → Prop where
  | binding {before after : List Char} {p : Pair Bracketed} :
      LeftmostBinding text.toList before p after →
        Classed text (.ok (.binding ⟨sideOf p.left, sideOf p.right⟩))
  | basic : ¬HasBinding text.toList → HasNames text.toList → Classed text (.ok (.basic text))
  | blank : ¬HasBinding text.toList → ¬HasNames text.toList → Text.isBlank text = true →
      Classed text (.ok (.blank text))
  | unparsable : ¬HasBinding text.toList → ¬HasNames text.toList → Text.isBlank text = false →
      Classed text (.error (.unparsable text))

theorem side_eq_sideOf {b : Bracketed} (h : b.WellFormed) : side b = sideOf b := by
  rw [side, sideOf, trimmed, trimChars_of_isWord h.isWord_name]

theorem classify_of_leftmostBinding {text : String} {before after : List Char}
    {p : Pair Bracketed} (h : LeftmostBinding text.toList before p after) :
    classify text = .ok (.binding ⟨sideOf p.left, sideOf p.right⟩) := by
  simp only [classify, binding?_of_leftmostBinding h, side_eq_sideOf h.here.left,
    side_eq_sideOf h.here.right]

theorem classify_of_not_hasBinding {text : String} (h : ¬HasBinding text.toList) :
    classify text = if HasNames text.toList then .ok (.basic text)
      else if Text.isBlank text then .ok (.blank text) else .error (.unparsable text) := by
  simp only [classify, binding?_eq_none_iff.mpr h, names?_isSome_iff]

theorem classify_of_classed {text : String} {outcome : Except LineFault Line}
    (h : Classed text outcome) : classify text = outcome := by
  cases h with
  | binding hleft => exact classify_of_leftmostBinding hleft
  | basic hb hn => rw [classify_of_not_hasBinding hb, if_pos hn]
  | blank hb hn hs => rw [classify_of_not_hasBinding hb, if_neg hn, if_pos hs]
  | unparsable hb hn hs =>
    rw [classify_of_not_hasBinding hb, if_neg hn, hs]
    rfl

theorem exists_classed (text : String) : ∃ outcome, Classed text outcome := by
  by_cases hb : HasBinding text.toList
  · obtain ⟨before, p, after, hleft⟩ := exists_leftmostBinding hb
    exact ⟨_, .binding hleft⟩
  · by_cases hn : HasNames text.toList
    · exact ⟨_, .basic hb hn⟩
    · cases hs : Text.isBlank text with
      | true => exact ⟨_, .blank hb hn hs⟩
      | false => exact ⟨_, .unparsable hb hn hs⟩

theorem classify_eq_iff_classed {text : String} {outcome : Except LineFault Line} :
    classify text = outcome ↔ Classed text outcome := by
  constructor
  · rintro rfl
    obtain ⟨outcome, h⟩ := exists_classed text
    rw [classify_of_classed h]
    exact h
  · exact classify_of_classed

/-- A line with a binding is that binding, of several the one furthest to the left; and there is
only one way to write the line around it. -/
theorem classify_leftmost (text : String) :
    (∀ outcome, classify text = outcome ↔ Classed text outcome) ∧
    (HasBinding text.toList → ∃ before p after, LeftmostBinding text.toList before p after ∧
      (∀ b q a, LeftmostBinding text.toList b q a → b = before ∧ q = p ∧ a = after) ∧
      ∀ front c, before = front ++ [c] → isWord c = false) := by
  refine ⟨fun _ => classify_eq_iff_classed, fun h => ?_⟩
  obtain ⟨before, p, after, hleft⟩ := exists_leftmostBinding h
  refine ⟨before, p, after, hleft, fun b q a hq => hq.unique hleft, ?_⟩
  rintro front c rfl
  exact hleft.isWord_eq_false

theorem classify_leftmost_brackets :
    HasBinding "a[1] b[0,[\n2 ]\t,c[#..9]]".toList ∧
    (∃ before p after, LeftmostBinding "a[1] b[0,[\n2 ]\t,c[#..9]]".toList before p after ∧
      (∀ b q a, LeftmostBinding "a[1] b[0,[\n2 ]\t,c[#..9]]".toList b q a →
        b = before ∧ q = p ∧ a = after) ∧
      ∀ front c, before = front ++ [c] → isWord c = false) ∧
    Classed "a[1] b[0,[\n2 ]\t,c[#..9]]" (.ok (.binding ⟨⟨"b", "0,[\n2"⟩, ⟨"c", "#..9"⟩⟩)) ∧
    Classed "a[], b[0]" (.error (.unparsable "a[], b[0]")) := by
  have hb : HasBinding "a[1] b[0,[\n2 ]\t,c[#..9]]".toList := by decide +kernel
  obtain ⟨hclass, hunique⟩ := classify_leftmost "a[1] b[0,[\n2 ]\t,c[#..9]]"
  exact ⟨hb, hunique hb, (hclass _).mp (by decide +kernel),
    ((classify_leftmost _).1 _).mp (by decide +kernel)⟩

end Line

end Pinout
