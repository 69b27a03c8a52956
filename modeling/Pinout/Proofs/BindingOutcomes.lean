import Pinout.Proofs.LeftmostBinding
import Pinout.Proofs.ResolvedBindings
import Pinout.Proofs.ResolvedTexts

/-!
What becomes of a binding. The sides are read from left to right, then an implicit one is filled
from the other, then the lengths are compared; the first step that fails names the side at fault.
-/

namespace Pinout

/-- Errors of handling specifiers in the wrong order, which no text can bring about. -/
def ResolveError.isMisuse : ResolveError → Bool
  | unresolved _ | siblingNotExplicit _ _ | alreadyExplicit _ | missingSibling _ => true
  | unrecognized _ | numberOutOfRange _ | zeroStep _ | indexOutOfRange _ => false

theorem Specifier.text_of_resolve {text : String} {s : Specifier} (h : resolve text = .ok s) :
    s.text = Text.trim text := by
  obtain ⟨_, _, _, _, _, rfl⟩ := resolve_eq_ok_iff.mp h
  rfl

theorem Specifier.content_of_implicit {text : String} {s : Specifier} (h : resolve text = .ok s)
    (hs : s.family = .implicit) : s.content = none := by
  rcases content_of_resolve h with ⟨he, _⟩ | ⟨_, hnone⟩
  · cases hs.symm.trans he
  · exact hnone

theorem Specifier.isMisuse_of_resolve {text : String} {e : ResolveError}
    (h : resolve text = .error e) : e.isMisuse = false := by
  rcases writes_or_unrecognized text with ⟨g, captures, hw⟩ | ⟨_, hr⟩
  · rcases resolve_error_of_writes hw h with ⟨_, rfl⟩ | rfl | rfl <;> rfl
  · cases hr.symm.trans h
    rfl

theorem Grammar.isMisuse_of_expand {g : Grammar} {captures : List String} {base : List Index}
    {e : ResolveError} (h : g.expand captures (some base) = .error e) : e.isMisuse = false := by
  rcases expand_error h with ⟨_, _, rfl⟩ | rfl | rfl | ⟨hnone, _⟩
  · rfl
  · rfl
  · rfl
  · cases hnone

namespace Binding

/-- Either side of the binding resolves on its own. -/
structure Resolved (b : Binding) (left right : Specifier) : Prop where
  left : Specifier.resolve b.left.specifier = .ok left
  right : Specifier.resolve b.right.specifier = .ok right

/-- The contents of two specifiers, of which one may have to go by the other. -/
inductive Paired (left right : Specifier) : List Index → List Index → Prop where
  | explicit {is js : List Index} : left.family = .explicit → right.family = .explicit →
      left.content = some is → right.content = some js → Paired left right is js
  | left {is js : List Index} : left.family = .implicit → right.family = .explicit →
      right.content = some js → left.grammar.expand left.captures (some js) = .ok is →
        Paired left right is js
  | right {is js : List Index} : left.family = .explicit → right.family = .implicit →
      left.content = some is → right.grammar.expand right.captures (some is) = .ok js →
        Paired left right is js

/-- Every outcome there is of expanding a binding. -/
inductive Expansion (b : Binding) : Except LineFault (List String) → Prop where
  | left {e : ResolveError} : Specifier.resolve b.left.specifier = .error e →
      Expansion b (.error (.specifier b.left.specifier e))
  | right {left : Specifier} {e : ResolveError} : Specifier.resolve b.left.specifier = .ok left →
      Specifier.resolve b.right.specifier = .error e →
        Expansion b (.error (.specifier b.right.specifier e))
  | twoImplicit {left right : Specifier} : b.Resolved left right → left.family = .implicit →
      right.family = .implicit → Expansion b
        (.error (.twoImplicit (Text.trim b.left.specifier) (Text.trim b.right.specifier)))
  | leftFailed {left right : Specifier} {js : List Index} {e : ResolveError} :
      b.Resolved left right → left.family = .implicit → right.family = .explicit →
        right.content = some js → left.grammar.expand left.captures (some js) = .error e →
          Expansion b (.error (.specifier (Text.trim b.left.specifier) e))
  | rightFailed {left right : Specifier} {is : List Index} {e : ResolveError} :
      b.Resolved left right → left.family = .explicit → right.family = .implicit →
        left.content = some is → right.grammar.expand right.captures (some is) = .error e →
          Expansion b (.error (.specifier (Text.trim b.right.specifier) e))
  | uneven {left right : Specifier} {is js : List Index} : b.Resolved left right →
      Paired left right is js → is.length ≠ js.length → Expansion b
        (.error (.lengthMismatch (Text.trim b.left.specifier) is.length
          (Text.trim b.right.specifier) js.length))
  | rows {left right : Specifier} {is js : List Index} : b.Resolved left right →
      Paired left right is js → is.length = js.length →
        Expansion b (.ok (List.zipWith b.row is js))

variable {b : Binding} {left right : Specifier}

theorem Resolved.resolve_eq (h : b.Resolved left right) : b.resolve = settle left right := by
  simp only [Binding.resolve_eq, h.left, h.right, blame, bind, Except.bind]

/-- Resolving a binding fills the sides with the contents that they are paired with. -/
theorem Resolved.exists_of_paired (h : b.Resolved left right) {is js : List Index}
    (hp : Paired left right is js) : ∃ l r, b.resolve = .ok (l, r) ∧ l.content = some is ∧
      r.content = some js ∧ l.text = left.text ∧ r.text = right.text := by
  rw [h.resolve_eq]
  cases hp with
  | explicit hl hr his hjs =>
    refine ⟨left, right, ?_, his, hjs, rfl, rfl⟩
    simp only [settle_eq, hl, hr]
  | left hl hr hjs he =>
    rw [settle_of_implicit_left hl (Specifier.content_of_implicit h.left hl) hr hjs, he]
    exact ⟨_, _, rfl, rfl, hjs, rfl, rfl⟩
  | right hl hr his he =>
    rw [settle_of_implicit_right hl his hr (Specifier.content_of_implicit h.right hr), he]
    exact ⟨_, _, rfl, his, rfl, rfl, rfl⟩

theorem contents_iff {is js : List Index} : b.Contents is js ↔
    ∃ left right, b.Resolved left right ∧ Paired left right is js := by
  constructor
  · rintro ⟨l, r, hb, hl, hr⟩
    have hres := resolution b
    rw [hb] at hres
    cases hres with
    | both hleft hright hset =>
      refine ⟨_, _, ⟨hleft, hright⟩, ?_⟩
      cases hset with
      | explicit hlf hrf _ _ => exact .explicit hlf hrf hl hr
      | leftFilled hlf hrf hjs he =>
        cases hl
        cases hjs.symm.trans hr
        exact .left hlf hrf hjs he
      | rightFilled hlf hrf his he =>
        cases hr
        cases his.symm.trans hl
        exact .right hlf hrf his he
  · rintro ⟨left, right, h, hp⟩
    obtain ⟨l, r, hb, hl, hr, _, _⟩ := h.exists_of_paired hp
    exact ⟨l, r, hb, hl, hr⟩

theorem Resolved.expand_of_paired (h : b.Resolved left right) {is js : List Index}
    (hp : Paired left right is js) : b.expand =
      if is.length = js.length then .ok (List.zipWith b.row is js)
      else .error (.lengthMismatch (Text.trim b.left.specifier) is.length
        (Text.trim b.right.specifier) js.length) := by
  obtain ⟨l, r, hres, hl, hr, hlt, hrt⟩ := h.exists_of_paired hp
  rw [expand_of_resolve_ok hres hl hr, hlt, hrt, Specifier.text_of_resolve h.left,
    Specifier.text_of_resolve h.right]

theorem expand_of_expansion {outcome : Except LineFault (List String)}
    (h : b.Expansion outcome) : b.expand = outcome := by
  cases h with
  | left he =>
    apply expand_of_resolve_error
    simp only [resolve_eq, he, blame, bind, Except.bind]
  | right hl he =>
    apply expand_of_resolve_error
    simp only [resolve_eq, hl, he, blame, bind, Except.bind]
  | twoImplicit h hl hr =>
    apply expand_of_resolve_error
    rw [h.resolve_eq, ← Specifier.text_of_resolve h.left, ← Specifier.text_of_resolve h.right]
    simp only [settle_eq, hl, hr]
  | leftFailed h hl hr hjs he =>
    apply expand_of_resolve_error
    rw [h.resolve_eq, settle_of_implicit_left hl (Specifier.content_of_implicit h.left hl) hr hjs,
      he, Specifier.text_of_resolve h.left]
    rfl
  | rightFailed h hl hr his he =>
    apply expand_of_resolve_error
    rw [h.resolve_eq,
      settle_of_implicit_right hl his hr (Specifier.content_of_implicit h.right hr), he,
      Specifier.text_of_resolve h.right]
    rfl
  | uneven h hp hne => rw [h.expand_of_paired hp, if_neg hne]
  | rows h hp hlen => rw [h.expand_of_paired hp, if_pos hlen]

theorem Resolved.expansion_of_paired (h : b.Resolved left right) {is js : List Index}
    (hp : Paired left right is js) : b.Expansion b.expand := by
  rw [h.expand_of_paired hp]
  split
  · rename_i hlen
    exact .rows h hp hlen
  · rename_i hne
    exact .uneven h hp hne

theorem expansion (b : Binding) : b.Expansion b.expand := by
  have hres := resolution b
  cases hb : b.resolve with
  | error fault =>
    rw [expand_of_resolve_error hb]
    rw [hb] at hres
    cases hres with
    | left he => exact .left he
    | right hl he => exact .right hl he
    | both hl hr hset =>
      cases hset with
      | twoImplicit hlf hrf =>
        rw [Specifier.text_of_resolve hl, Specifier.text_of_resolve hr]
        exact .twoImplicit ⟨hl, hr⟩ hlf hrf
      | leftFailed hlf hrf hjs he =>
        rw [Specifier.text_of_resolve hl]
        exact .leftFailed ⟨hl, hr⟩ hlf hrf hjs he
      | rightFailed hlf hrf his he =>
        rw [Specifier.text_of_resolve hr]
        exact .rightFailed ⟨hl, hr⟩ hlf hrf his he
  | ok sides =>
    rw [hb] at hres
    cases hres with
    | both hl hr hset =>
      have hsides : b.Resolved _ _ := ⟨hl, hr⟩
      cases hset with
      | explicit hlf hrf his hjs => exact hsides.expansion_of_paired (.explicit hlf hrf his hjs)
      | leftFilled hlf hrf hjs he => exact hsides.expansion_of_paired (.left hlf hrf hjs he)
      | rightFilled hlf hrf his he => exact hsides.expansion_of_paired (.right hlf hrf his he)

theorem expand_eq_iff_expansion {outcome : Except LineFault (List String)} :
    b.expand = outcome ↔ b.Expansion outcome := by
  constructor
  · rintro rfl
    exact expansion b
  · exact expand_of_expansion

theorem Expansion.isMisuse_eq_false {culprit : String} {cause : ResolveError}
    (h : b.Expansion (.error (.specifier culprit cause))) : cause.isMisuse = false := by
  cases h with
  | left he => exact Specifier.isMisuse_of_resolve he
  | right _ he => exact Specifier.isMisuse_of_resolve he
  | leftFailed _ _ _ _ he => exact Grammar.isMisuse_of_expand he
  | rightFailed _ _ _ _ he => exact Grammar.isMisuse_of_expand he

end Binding

theorem Line.isMisuse_of_expand {text culprit : String} {cause : ResolveError}
    (h : Line.expand text = .error (.specifier culprit cause)) : cause.isMisuse = false := by
  cases hc : classify text with
  | error fault =>
    rw [expand_eq, hc] at h
    cases h
    -- a line that is no binding is refused for its shape alone
    cases classify_eq_iff_classed.mp hc
  | ok line =>
    have hrows : line.rows = .error (.specifier culprit cause) := by
      rw [expand_eq, hc] at h
      exact h
    cases line with
    | binding b =>
      have hb : b.expand = .error (.specifier culprit cause) := hrows
      exact (Binding.expand_eq_iff_expansion.mp hb).isMisuse_eq_false
    | basic text => cases hrows
    | blank text => cases hrows

namespace Binding

/-- A binding comes to exactly one outcome, which is known from its texts; and whatever a line is,
no error in it is one of handling. -/
theorem expand_outcome :
    (∀ (b : Binding) (outcome : Except LineFault (List String)),
      b.expand = outcome ↔ b.Expansion outcome) ∧
    ∀ text culprit cause, Line.expand text = .error (.specifier culprit cause) →
      cause.isMisuse = false := by
  refine ⟨fun _ _ => expand_eq_iff_expansion, ?_⟩
  intro text culprit cause h
  exact Line.isMisuse_of_expand h

theorem expand_outcome_late :
    Expansion ⟨⟨"x", "4,"⟩, ⟨"y", "0:"⟩⟩ (.error (.specifier "4," (.unrecognized "4,"))) ∧
    Expansion ⟨⟨"x", " #..0\t"⟩, ⟨"y", "0..2"⟩⟩
      (.error (.specifier "#..0" (.indexOutOfRange .countDown))) ∧
    Expansion ⟨⟨"x", "6"⟩, ⟨"y", " 0:1:3"⟩⟩ (.error (.lengthMismatch "6" 1 "0:1:3" 4)) ∧
    Expansion ⟨⟨"x", " #..5\t"⟩, ⟨"y", "9:3:2"⟩⟩
      (.ok ["x[5], y[9]", "x[4], y[12]", "x[3], y[15]"]) ∧
    Line.expand "x[7], y[18446744073709551616..]" =
      .error (.specifier "18446744073709551616.."
        (.numberOutOfRange "18446744073709551616")) ∧
    (ResolveError.numberOutOfRange "18446744073709551616").isMisuse = false := by
  have hlate : Line.expand "x[7], y[18446744073709551616..]" =
      .error (.specifier "18446744073709551616.."
        (.numberOutOfRange "18446744073709551616")) := by
    decide +kernel
  obtain ⟨houtcome, hcause⟩ := expand_outcome
  exact ⟨(houtcome _ _).mp (by decide +kernel), (houtcome _ _).mp (by decide +kernel),
    (houtcome _ _).mp (by decide +kernel), (houtcome _ _).mp (by decide +kernel), hlate,
    hcause _ _ _ hlate⟩

end Binding

end Pinout
