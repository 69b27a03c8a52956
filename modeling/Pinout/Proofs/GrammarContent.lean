import Mathlib.Data.List.Forall2
import Pinout.Specifier.Expand

/-!
What a grammar makes of its numerals. The content of an implicit grammar is as long as that of the
sibling it goes by, whichever of its terms might not fit; and there are few ways to fail.
-/

namespace Pinout

theorem mapM_eq_some_iff {α β : Type} {f : α → Option β} {as : List α} {bs : List β} :
    as.mapM f = some bs ↔ List.Forall₂ (fun a b => f a = some b) as bs := by
  induction as generalizing bs with
  | nil => simp [eq_comm]
  | cons a as ih =>
    simp only [List.mapM_cons, bind, Option.bind_eq_some_iff, pure, Option.some.injEq, ih,
      List.forall₂_cons_left_iff]
    constructor
    · rintro ⟨b, hb, rest, hrest, rfl⟩
      exact ⟨b, rest, hb, hrest, rfl⟩
    · rintro ⟨b, rest, hb, hrest, rfl⟩
      exact ⟨b, hb, rest, hrest, rfl⟩

theorem Index.terms_eq_mapM (term : Nat → Option Index) (k n : Nat) :
    terms term k n = (List.range' k n).mapM term := by
  induction n generalizing k with
  | zero => rfl
  | succ n ih =>
    rw [terms, List.range'_succ, List.mapM_cons, ← ih (k + 1)]
    cases term k with
    | none => rfl
    | some i => cases terms term (k + 1) n <;> rfl

theorem Index.length_of_terms {term : Nat → Option Index} {k n : Nat} {content : List Index}
    (h : terms term k n = some content) : content.length = n := by
  rw [terms_eq_mapM, mapM_eq_some_iff] at h
  rw [← h.length_eq, List.length_range']

namespace Grammar

theorem readIndices_cons {c : String} {cs : List String} {args : List Index} :
    readIndices (c :: cs) = .ok args ↔
      ∃ i rest, Index.ofText? c = some i ∧ readIndices cs = .ok rest ∧ args = i :: rest := by
  rw [readIndices]
  cases Index.ofText? c with
  | none => simp
  | some i => cases readIndices cs <;> simp [Except.map, eq_comm]

theorem exists_readIndices {captures : List String}
    (h : ∀ c ∈ captures, (Index.ofText? c).isSome = true) :
    ∃ args, readIndices captures = .ok args := by
  induction captures with
  | nil => exact ⟨[], rfl⟩
  | cons c cs ih =>
    obtain ⟨i, hi⟩ := Option.isSome_iff_exists.mp (h c List.mem_cons_self)
    obtain ⟨args, hargs⟩ := ih fun d hd => h d (List.mem_cons_of_mem c hd)
    exact ⟨i :: args, readIndices_cons.mpr ⟨i, args, hi, hargs, rfl⟩⟩

/-- Nothing that comes after a numeral which cannot be read is looked at. -/
theorem readIndices_append_of_none {earlier later : List String} {c : String}
    (hearlier : ∀ d ∈ earlier, ∃ i, Index.ofText? d = some i) (hc : Index.ofText? c = none) :
    readIndices (earlier ++ c :: later) = .error (.numberOutOfRange c) := by
  induction earlier with
  | nil => rw [List.nil_append, readIndices, hc]
  | cons d earlier ih =>
    obtain ⟨⟨i, hi⟩, hrest⟩ := List.forall_mem_cons.mp hearlier
    rw [List.cons_append, readIndices, hi]
    exact congrArg (Except.map (i :: ·)) (ih hrest)

theorem readIndices_error {captures : List String} {e : ResolveError}
    (h : readIndices captures = .error e) : ∃ c ∈ captures, e = .numberOutOfRange c := by
  induction captures with
  | nil => cases h
  | cons c cs ih =>
    rw [readIndices] at h
    cases hc : Index.ofText? c with
    | none =>
      rw [hc] at h
      cases h
      exact ⟨c, List.mem_cons_self, rfl⟩
    | some i =>
      cases hcs : readIndices cs with
      | ok args => simp [hc, hcs, Except.map] at h
      | error d =>
        simp only [hc, hcs, Except.map, Except.error.injEq] at h
        subst h
        obtain ⟨b, hb, he⟩ := ih hcs
        exact ⟨b, List.mem_cons_of_mem c hb, he⟩

theorem expand_eq_ok_iff {g : Grammar} {captures : List String} {sibling : Option (List Index)}
    {content : List Index} : g.expand captures sibling = .ok content ↔
      ∃ args, readIndices captures = .ok args ∧ g.indices args sibling = .ok content := by
  cases h : readIndices captures <;> simp [expand, h]

theorem inRange_eq_ok_iff {g : Grammar} {terms : Option (List Index)} {content : List Index} :
    inRange g terms = .ok content ↔ terms = some content := by
  cases terms <;> simp [inRange]

theorem inRange_error {g : Grammar} {terms : Option (List Index)} {e : ResolveError}
    (h : inRange g terms = .error e) : e = .indexOutOfRange g := by
  cases terms with
  | none =>
    cases h
    rfl
  | some content => cases h

theorem indices_error {g : Grammar} {args : List Index} {sibling : Option (List Index)}
    {e : ResolveError} (h : g.indices args sibling = .error e) :
    e = .zeroStep g ∨ e = .indexOutOfRange g ∨ (sibling = none ∧ e = .missingSibling g) := by
  cases g with
  | list => cases h
  | range => cases h
  | strideTo =>
    simp only [indices] at h
    split at h
    · cases h
    · split at h
      · cases h
        exact Or.inl rfl
      · cases h
  | stride => exact Or.inr (Or.inl (inRange_error h))
  | reuse =>
    cases sibling with
    | none =>
      cases h
      exact Or.inr (Or.inr ⟨rfl, rfl⟩)
    | some base => cases h
  | shift | countUp | countDown | strideAlong =>
    cases sibling with
    | none =>
      cases h
      exact Or.inr (Or.inr ⟨rfl, rfl⟩)
    | some base => exact Or.inr (Or.inl (inRange_error h))

/-- A numeral may be too large, a step zero, or an index too large; and a sibling may be missing,
but only if there is none. -/
theorem expand_error {g : Grammar} {captures : List String} {sibling : Option (List Index)}
    {e : ResolveError} (h : g.expand captures sibling = .error e) :
    (∃ c ∈ captures, e = .numberOutOfRange c) ∨ e = .zeroStep g ∨ e = .indexOutOfRange g ∨
      (sibling = none ∧ e = .missingSibling g) := by
  cases hr : readIndices captures with
  | error d =>
    simp only [expand, hr, Except.error.injEq] at h
    subst h
    exact Or.inl (readIndices_error hr)
  | ok args =>
    simp only [expand, hr] at h
    exact Or.inr (indices_error h)

theorem length_of_indices {g : Grammar} {args base content : List Index}
    (hg : g.family = .implicit) (h : g.indices args (some base) = .ok content) :
    content.length = base.length := by
  cases g with
  | list | range | strideTo | stride => cases hg
  | reuse =>
    cases h
    rfl
  | shift => exact (mapM_eq_some_iff.mp (inRange_eq_ok_iff.mp h)).length_eq.symm
  | countUp | countDown | strideAlong => exact Index.length_of_terms (inRange_eq_ok_iff.mp h)

/-- An implicit grammar yields as many indices as the sibling has. -/
theorem length_of_expand {g : Grammar} {captures : List String} {base content : List Index}
    (hg : g.family = .implicit) (h : g.expand captures (some base) = .ok content) :
    content.length = base.length := by
  obtain ⟨args, _, hi⟩ := expand_eq_ok_iff.mp h
  exact length_of_indices hg hi

theorem indices_nil {g : Grammar} (hg : g.family = .implicit) (args : List Index) :
    g.indices args (some []) = .ok [] := by
  cases g with
  | list | range | strideTo | stride => cases hg
  | reuse | shift | countUp | countDown | strideAlong => rfl

/-- No index goes with no index, whatever the numerals are. -/
theorem expand_nil {g : Grammar} {captures : List String} (hg : g.family = .implicit)
    (h : ∀ c ∈ captures, (Index.ofText? c).isSome = true) :
    g.expand captures (some []) = .ok [] := by
  obtain ⟨args, hargs⟩ := exists_readIndices h
  exact expand_eq_ok_iff.mpr ⟨args, hargs, indices_nil hg args⟩

end Grammar

end Pinout
