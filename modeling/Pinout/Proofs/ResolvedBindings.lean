import Pinout.Line.Binding
import Pinout.Proofs.SpecifierLife

/-!
Bindings and the contents of their sides. A side that goes by the other is as long as the other, so
only two explicit sides can differ in length; and no index is left without a partner.
-/

namespace Pinout.Binding

theorem settle_of_implicit_left {left right : Specifier} {js : List Index}
    (hl : left.family = .implicit) (hnone : left.content = none) (hr : right.family = .explicit)
    (hjs : right.content = some js) : settle left right =
      (blame left.text (left.grammar.expand left.captures (some js))).map fun is =>
        ({ left with content := some is }, right) := by
  simp only [settle_eq, hl, hr, Specifier.borrowFrom_of_fresh hl hnone hr hjs]
  cases left.grammar.expand left.captures (some js) <;> rfl

theorem settle_of_implicit_right {left right : Specifier} {is : List Index}
    (hl : left.family = .explicit) (his : left.content = some is) (hr : right.family = .implicit)
    (hnone : right.content = none) : settle left right =
      (blame right.text (right.grammar.expand right.captures (some is))).map fun js =>
        (left, { right with content := some js }) := by
  simp only [settle_eq, hl, hr, Specifier.borrowFrom_of_fresh hr hnone hl his]
  cases right.grammar.expand right.captures (some is) <;> rfl

/-- Every outcome there is of giving an implicit one of two fresh specifiers its content. -/
inductive Settling (left right : Specifier) : Except LineFault (Specifier × Specifier) → Prop where
  | twoImplicit : left.family = .implicit → right.family = .implicit →
      Settling left right (.error (.twoImplicit left.text right.text))
  | explicit {is js : List Index} : left.family = .explicit → right.family = .explicit →
      left.content = some is → right.content = some js → Settling left right (.ok (left, right))
  | leftFailed {js : List Index} {e : ResolveError} : left.family = .implicit →
      right.family = .explicit → right.content = some js →
        left.grammar.expand left.captures (some js) = .error e →
          Settling left right (.error (.specifier left.text e))
  | leftFilled {is js : List Index} : left.family = .implicit → right.family = .explicit →
      right.content = some js → left.grammar.expand left.captures (some js) = .ok is →
        Settling left right (.ok ({ left with content := some is }, right))
  | rightFailed {is : List Index} {e : ResolveError} : left.family = .explicit →
      right.family = .implicit → left.content = some is →
        right.grammar.expand right.captures (some is) = .error e →
          Settling left right (.error (.specifier right.text e))
  | rightFilled {is js : List Index} : left.family = .explicit → right.family = .implicit →
      left.content = some is → right.grammar.expand right.captures (some is) = .ok js →
        Settling left right (.ok (left, { right with content := some js }))

theorem settling {text text' : String} {left right : Specifier}
    (hl : Specifier.resolve text = .ok left) (hr : Specifier.resolve text' = .ok right) :
    Settling left right (settle left right) := by
  rcases Specifier.content_of_resolve hl with ⟨hlf, is, his, _⟩ | ⟨hlf, hlnone⟩
  · rcases Specifier.content_of_resolve hr with ⟨hrf, js, hjs, _⟩ | ⟨hrf, hrnone⟩
    · simp only [settle_eq, hlf, hrf]
      exact .explicit hlf hrf his hjs
    · rw [settle_of_implicit_right hlf his hrf hrnone]
      cases he : right.grammar.expand right.captures (some is) with
      | error e => exact .rightFailed hlf hrf his he
      | ok js => exact .rightFilled hlf hrf his he
  · rcases Specifier.content_of_resolve hr with ⟨hrf, js, hjs, _⟩ | ⟨hrf, _⟩
    · rw [settle_of_implicit_left hlf hlnone hrf hjs]
      cases he : left.grammar.expand left.captures (some js) with
      | error e => exact .leftFailed hlf hrf hjs he
      | ok is => exact .leftFilled hlf hrf hjs he
    · simp only [settle_eq, hlf, hrf]
      exact .twoImplicit hlf hrf

/-- Every outcome there is of resolving a binding. -/
inductive Resolution (b : Binding) : Except LineFault (Specifier × Specifier) → Prop where
  | left {e : ResolveError} : Specifier.resolve b.left.specifier = .error e →
      Resolution b (.error (.specifier b.left.specifier e))
  | right {left : Specifier} {e : ResolveError} : Specifier.resolve b.left.specifier = .ok left →
      Specifier.resolve b.right.specifier = .error e →
        Resolution b (.error (.specifier b.right.specifier e))
  | both {left right : Specifier} {outcome : Except LineFault (Specifier × Specifier)} :
      Specifier.resolve b.left.specifier = .ok left →
        Specifier.resolve b.right.specifier = .ok right → Settling left right outcome →
          Resolution b outcome

theorem resolution (b : Binding) : Resolution b b.resolve := by
  simp only [resolve_eq, bind, Except.bind]
  cases hl : Specifier.resolve b.left.specifier with
  | error e => exact .left hl
  | ok left =>
    cases hr : Specifier.resolve b.right.specifier with
    | error e => exact .right hl hr
    | ok right => exact .both hl hr (settling hl hr)

theorem expand_of_resolve_error {b : Binding} {fault : LineFault} (h : b.resolve = .error fault) :
    b.expand = .error fault := by
  simp [expand_eq, h, bind, Except.bind]

theorem expand_of_resolve_ok {b : Binding} {left right : Specifier} {is js : List Index}
    (h : b.resolve = .ok (left, right)) (hl : left.content = some is)
    (hr : right.content = some js) : b.expand =
      if is.length = js.length then .ok (List.zipWith b.row is js)
      else .error (.lengthMismatch left.text is.length right.text js.length) := by
  rw [← Specifier.contentOrError_eq_ok_iff] at hl hr
  simp only [expand_eq, h, hl, hr, blame, bind, Except.bind]
  rfl

theorem not_lengthMismatch_of_resolve {b : Binding} {l r : String} {m n : Nat} :
    b.resolve ≠ .error (.lengthMismatch l m r n) := by
  intro h
  have hres := resolution b
  rw [h] at hres
  cases hres with
  | both _ _ hset => cases hset

/-- Both sides of the binding are explicit, and their contents differ in length. -/
structure Uneven (b : Binding) (left : String) (m : Nat) (right : String) (n : Nat) : Prop where
  differ : m ≠ n
  sides : ∃ l r is js, Specifier.resolve b.left.specifier = .ok l ∧
    Specifier.resolve b.right.specifier = .ok r ∧ l.family = .explicit ∧ r.family = .explicit ∧
    l.content = some is ∧ r.content = some js ∧ l.text = left ∧ is.length = m ∧ r.text = right ∧
    js.length = n

theorem resolve_of_explicit {b : Binding} {l r : Specifier}
    (hl : Specifier.resolve b.left.specifier = .ok l)
    (hr : Specifier.resolve b.right.specifier = .ok r) (hlf : l.family = .explicit)
    (hrf : r.family = .explicit) : b.resolve = .ok (l, r) := by
  simp only [resolve_eq, hl, hr, blame, bind, Except.bind, settle_eq, hlf, hrf]

theorem expand_eq_lengthMismatch_iff {b : Binding} {left right : String} {m n : Nat} :
    b.expand = .error (.lengthMismatch left m right n) ↔ b.Uneven left m right n := by
  constructor
  · intro h
    cases hres : b.resolve with
    | error fault =>
      rw [expand_of_resolve_error hres] at h
      cases h
      exact absurd hres not_lengthMismatch_of_resolve
    | ok sides =>
      have hsides := resolution b
      rw [hres] at hsides
      cases hsides with
      | both hl hr hset =>
        cases hset with
        | explicit hlf hrf his hjs =>
          rw [expand_of_resolve_ok hres his hjs] at h
          split at h
          · cases h
          · rename_i hne
            cases h
            exact ⟨hne, _, _, _, _, hl, hr, hlf, hrf, his, hjs, rfl, rfl, rfl, rfl⟩
        -- a side that goes by the other has as many indices
        | leftFilled hlf _ hjs he =>
          rw [expand_of_resolve_ok hres rfl hjs, if_pos (Grammar.length_of_expand hlf he)] at h
          cases h
        | rightFilled _ hrf his he =>
          rw [expand_of_resolve_ok hres his rfl,
            if_pos (Grammar.length_of_expand hrf he).symm] at h
          cases h
  · intro h
    obtain ⟨hne, l, r, is, js, hl, hr, hlf, hrf, his, hjs, rfl, rfl, rfl, rfl⟩ := h
    rw [expand_of_resolve_ok (resolve_of_explicit hl hr hlf hrf) his hjs, if_neg hne]

/-- The rows of a binding pair all the indices of one side with all those of the other. -/
theorem length_rows {b : Binding} {rows : List String} (h : b.expand = .ok rows) :
    ∃ is js, b.Contents is js ∧ rows.length = is.length ∧ rows.length = js.length ∧
      rows = List.zipWith b.row is js := by
  obtain ⟨is, js, hc, hlen, rfl⟩ := expand_eq_ok_iff.mp h
  refine ⟨is, js, hc, ?_, ?_, rfl⟩
  · simp [hlen]
  · simp [hlen]

/-- An implicit specifier has as many indices as the sibling it goes by, so a binding is uneven only
if both of its sides are explicit, and its rows leave no index out. -/
theorem implicit_fits_and_rows_pair :
    (∀ (g : Grammar) (captures : List String) (base : List Index), g.family = .implicit →
      (∀ content, g.expand captures (some base) = .ok content → content.length = base.length) ∧
      ((∀ c ∈ captures, (Index.ofText? c).isSome = true) →
        g.expand captures (some []) = .ok [])) ∧
    ∀ b : Binding,
      (∀ left m right n, b.expand = .error (.lengthMismatch left m right n) ↔
        b.Uneven left m right n) ∧
      ∀ rows, b.expand = .ok rows → ∃ is js, b.Contents is js ∧ rows.length = is.length ∧
        rows.length = js.length ∧ rows = List.zipWith b.row is js := by
  refine ⟨?_, ?_⟩
  · intro g captures base hg
    exact ⟨fun content h => Grammar.length_of_expand hg h, Grammar.expand_nil hg⟩
  · intro b
    exact ⟨fun _ _ _ _ => expand_eq_lengthMismatch_iff, fun _ h => length_rows h⟩

theorem implicit_fits_and_rows_pair_strides :
    Grammar.expand .strideAlong ["3", "2"] (some [7, 7, 9]) = .ok [3, 5, 7] ∧
    ([3, 5, 7] : List Index).length = ([7, 7, 9] : List Index).length ∧
    Grammar.expand .countDown ["0"] (some []) = .ok [] ∧
    Binding.expand ⟨⟨"x", "0..2"⟩, ⟨"y", "4:3:3"⟩⟩ =
      .error (.lengthMismatch "0..2" 3 "4:3:3" 4) ∧
    Uneven ⟨⟨"x", "0..2"⟩, ⟨"y", "4:3:3"⟩⟩ "0..2" 3 "4:3:3" 4 ∧
    Binding.expand ⟨⟨"x", "0:2:#"⟩, ⟨"y", "3..2"⟩⟩ = .ok ["x[0], y[3]", "x[2], y[2]"] ∧
    ∃ is js, Contents ⟨⟨"x", "0:2:#"⟩, ⟨"y", "3..2"⟩⟩ is js ∧ 2 = is.length ∧ 2 = js.length ∧
      ["x[0], y[3]", "x[2], y[2]"] =
        List.zipWith (row ⟨⟨"x", "0:2:#"⟩, ⟨"y", "3..2"⟩⟩) is js := by
  have hstride : Grammar.expand .strideAlong ["3", "2"] (some [7, 7, 9]) = .ok [3, 5, 7] := by
    decide +kernel
  have hcaptures : ∀ c ∈ ["0"], (Index.ofText? c).isSome = true := by decide +kernel
  have huneven : Binding.expand ⟨⟨"x", "0..2"⟩, ⟨"y", "4:3:3"⟩⟩ =
      .error (.lengthMismatch "0..2" 3 "4:3:3" 4) := by
    decide +kernel
  have hrows : Binding.expand ⟨⟨"x", "0:2:#"⟩, ⟨"y", "3..2"⟩⟩ =
      .ok ["x[0], y[3]", "x[2], y[2]"] := by
    decide +kernel
  obtain ⟨hfits, hpairs⟩ := implicit_fits_and_rows_pair
  exact ⟨hstride, (hfits .strideAlong _ _ rfl).1 _ hstride, (hfits .countDown _ [] rfl).2 hcaptures,
    huneven, ((hpairs _).1 _ _ _ _).mp huneven, hrows, (hpairs _).2 _ hrows⟩

end Pinout.Binding
