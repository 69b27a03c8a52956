import Pinout.Proofs.BindingOutcomes

/-!
Bindings with their sides exchanged. The rows are the same with their cells exchanged, and so are
the faults, unless both sides are at fault on their own: then the left one is reported.
-/

namespace Pinout

/-- The same fault of a binding with its sides exchanged. -/
def LineFault.swap : LineFault → LineFault
  | unparsable text => unparsable text
  | specifier culprit cause => specifier culprit cause
  | twoImplicit left right => twoImplicit right left
  | lengthMismatch left m right n => lengthMismatch right n left m

theorem LineFault.swap_swap (fault : LineFault) : fault.swap.swap = fault := by
  cases fault <;> rfl

namespace Binding

variable {b : Binding} {left right : Specifier} {is js : List Index}

theorem swap_swap (b : Binding) : b.swap.swap = b := rfl

theorem Resolved.swap (h : b.Resolved left right) : b.swap.Resolved right left :=
  ⟨h.right, h.left⟩

theorem Paired.swap (h : Paired left right is js) : Paired right left js is := by
  cases h with
  | explicit hl hr his hjs => exact .explicit hr hl hjs his
  | left hl hr hjs he => exact .right hr hl hjs he
  | right hl hr his he => exact .left hr hl his he

theorem Contents.swap (h : b.Contents is js) : b.swap.Contents js is := by
  obtain ⟨left, right, hres, hp⟩ := contents_iff.mp h
  exact contents_iff.mpr ⟨right, left, hres.swap, hp.swap⟩

/-- At least one side of the binding resolves on its own. -/
def HasResolved (b : Binding) : Prop :=
  (∃ s, Specifier.resolve b.left.specifier = .ok s) ∨
    ∃ s, Specifier.resolve b.right.specifier = .ok s

theorem HasResolved.swap (h : b.HasResolved) : b.swap.HasResolved := Or.symm h

theorem Expansion.swap_error {fault : LineFault} (hone : b.HasResolved)
    (h : b.Expansion (.error fault)) : b.swap.Expansion (.error fault.swap) := by
  cases h with
  | left he =>
    -- so it is the right side that resolves
    rcases hone with ⟨s, hs⟩ | ⟨s, hs⟩
    · cases he.symm.trans hs
    · exact .right hs he
  | right _ he => exact .left he
  | twoImplicit h hl hr => exact .twoImplicit h.swap hr hl
  | leftFailed h hl hr hjs he => exact .rightFailed h.swap hr hl hjs he
  | rightFailed h hl hr his he => exact .leftFailed h.swap hr hl his he
  | uneven h hp hne => exact .uneven h.swap hp.swap hne.symm

theorem expand_swap_error {fault : LineFault} (hone : b.HasResolved)
    (h : b.expand = .error fault) : b.swap.expand = .error fault.swap := by
  apply expand_of_expansion
  exact (expand_eq_iff_expansion.mp h).swap_error hone

theorem expand_swap_ok {rows : List String} (h : b.expand = .ok rows) :
    ∃ is js, b.Contents is js ∧ is.length = js.length ∧ rows = List.zipWith b.row is js ∧
      b.swap.expand = .ok (List.zipWith b.swap.row js is) := by
  obtain ⟨is, js, hc, hlen, hrows⟩ := expand_eq_ok_iff.mp h
  refine ⟨is, js, hc, hlen, hrows, ?_⟩
  exact expand_eq_ok_iff.mpr ⟨js, is, hc.swap, hlen.symm, rfl⟩

/-- Exchanging the sides of a binding exchanges the cells of its rows, and the sides in its faults
as far as a fault is not that of one side alone. -/
theorem expand_swap (b : Binding) :
    ((∃ rows, b.expand = .ok rows) ↔ ∃ rows, b.swap.expand = .ok rows) ∧
    (∀ rows rows', b.expand = .ok rows → b.swap.expand = .ok rows' →
      ∃ is js, b.Contents is js ∧ b.swap.Contents js is ∧ is.length = js.length ∧
        rows = List.zipWith b.row is js ∧ rows' = List.zipWith b.swap.row js is) ∧
    (b.HasResolved → ∀ fault, b.expand = .error fault ↔ b.swap.expand = .error fault.swap) := by
  refine ⟨⟨?_, ?_⟩, ?_, ?_⟩
  · rintro ⟨rows, h⟩
    obtain ⟨is, js, _, _, _, hswap⟩ := expand_swap_ok h
    exact ⟨_, hswap⟩
  · rintro ⟨rows, h⟩
    obtain ⟨js, is, _, _, _, hswap⟩ := expand_swap_ok h
    exact ⟨_, hswap⟩
  · intro rows rows' h h'
    obtain ⟨is, js, hc, hlen, hrows, hswap⟩ := expand_swap_ok h
    rw [hswap, Except.ok.injEq] at h'
    exact ⟨is, js, hc, hc.swap, hlen, hrows, h'.symm⟩
  · intro hone fault
    refine ⟨expand_swap_error hone, fun h => ?_⟩
    have hback := expand_swap_error hone.swap h
    rwa [swap_swap, LineFault.swap_swap] at hback

theorem expand_swap_borrower :
    expand ⟨⟨"x", "3..2"⟩, ⟨"y", "0:2:#"⟩⟩ = .ok ["x[3], y[0]", "x[2], y[2]"] ∧
    expand ⟨⟨"y", "0:2:#"⟩, ⟨"x", "3..2"⟩⟩ = .ok ["y[0], x[3]", "y[2], x[2]"] ∧
    (∃ is js, Contents ⟨⟨"x", "3..2"⟩, ⟨"y", "0:2:#"⟩⟩ is js ∧
      Contents ⟨⟨"y", "0:2:#"⟩, ⟨"x", "3..2"⟩⟩ js is ∧ is.length = js.length ∧
      ["x[3], y[0]", "x[2], y[2]"] =
        List.zipWith (row ⟨⟨"x", "3..2"⟩, ⟨"y", "0:2:#"⟩⟩) is js ∧
      ["y[0], x[3]", "y[2], x[2]"] =
        List.zipWith (row ⟨⟨"y", "0:2:#"⟩, ⟨"x", "3..2"⟩⟩) js is) ∧
    HasResolved ⟨⟨"x", "7 "⟩, ⟨"y", "4,"⟩⟩ ∧
    expand ⟨⟨"y", "4,"⟩, ⟨"x", "7 "⟩⟩ = .error (.specifier "4," (.unrecognized "4,")) ∧
    expand ⟨⟨"y", "0:1:3"⟩, ⟨"x", "6"⟩⟩ = .error (.lengthMismatch "0:1:3" 4 "6" 1) := by
  have hrows : expand ⟨⟨"x", "3..2"⟩, ⟨"y", "0:2:#"⟩⟩ =
      .ok ["x[3], y[0]", "x[2], y[2]"] := by
    decide +kernel
  have hrows' : expand ⟨⟨"y", "0:2:#"⟩, ⟨"x", "3..2"⟩⟩ =
      .ok ["y[0], x[3]", "y[2], x[2]"] := by
    decide +kernel
  have hseven : HasResolved ⟨⟨"x", "7 "⟩, ⟨"y", "4,"⟩⟩ :=
    Or.inl ⟨⟨"7", .list, ["7"], some [7]⟩, by decide +kernel⟩
  have hsix : HasResolved ⟨⟨"x", "6"⟩, ⟨"y", "0:1:3"⟩⟩ :=
    Or.inl ⟨⟨"6", .list, ["6"], some [6]⟩, by decide +kernel⟩
  obtain ⟨_, hcells, _⟩ := expand_swap ⟨⟨"x", "3..2"⟩, ⟨"y", "0:2:#"⟩⟩
  obtain ⟨_, _, hculprit⟩ := expand_swap ⟨⟨"x", "7 "⟩, ⟨"y", "4,"⟩⟩
  obtain ⟨_, _, huneven⟩ := expand_swap ⟨⟨"x", "6"⟩, ⟨"y", "0:1:3"⟩⟩
  exact ⟨hrows, hrows', hcells _ _ hrows hrows', hseven,
    (hculprit hseven (.specifier "4," (.unrecognized "4,"))).mp (by decide +kernel),
    (huneven hsix (.lengthMismatch "6" 1 "0:1:3" 4)).mp (by decide +kernel)⟩

end Binding

end Pinout
