import Pinout.Proofs.GrammarContent

/-!
Terms in unbounded arithmetic. A grammar that computes its indices yields what plain integers would
give, as long as every term is an index; if one of them is not, the grammar fails and says so.
-/

namespace Pinout

namespace Index

theorem exists_of_lt_size {n : Nat} (h : n < UInt64.size) : ∃ i : Index, i.toNat = n :=
  ⟨UInt64.ofNatLT n h, UInt64.toNat_ofNatLT⟩

def ints (content : List Index) : List Int := content.map fun i => (i.toNat : Int)

/-- The integer is an index. -/
def Fits (z : Int) : Prop := 0 ≤ z ∧ z < UInt64.size

theorem fits_iff {z : Int} : Fits z ↔ ∃ i : Index, (i.toNat : Int) = z := by
  constructor
  · rintro ⟨hpos, hlt⟩
    obtain ⟨i, hi⟩ := exists_of_lt_size (n := z.toNat) (by omega)
    exact ⟨i, by omega⟩
  · rintro ⟨i, rfl⟩
    have hlt := i.toNat_lt_size
    exact ⟨by omega, by omega⟩

theorem fits_natCast {n : Nat} (h : n < UInt64.size) : Fits n :=
  ⟨Int.natCast_nonneg n, by exact_mod_cast h⟩

theorem exists_ints_iff {terms : List Int} :
    (∃ content, ints content = terms) ↔ ∀ t ∈ terms, Fits t := by
  constructor
  · rintro ⟨content, rfl⟩ t ht
    obtain ⟨i, _, rfl⟩ := List.mem_map.mp ht
    exact fits_iff.mpr ⟨i, rfl⟩
  · intro h
    induction terms with
    | nil => exact ⟨[], rfl⟩
    | cons t terms ih =>
      obtain ⟨i, hi⟩ := fits_iff.mp (h t List.mem_cons_self)
      obtain ⟨content, hcontent⟩ := ih fun u hu => h u (List.mem_cons_of_mem t hu)
      refine ⟨i :: content, ?_⟩
      rw [ints, List.map_cons, hi]
      exact congrArg (t :: ·) hcontent

theorem mapM_eq_some_iff_ints {α : Type} {f : α → Option Index} {z : α → Int} {as : List α}
    (h : ∀ a ∈ as, ∀ i, f a = some i ↔ (i.toNat : Int) = z a) {content : List Index} :
    as.mapM f = some content ↔ ints content = as.map z := by
  induction as generalizing content with
  | nil => rw [mapM_eq_some_iff, List.forall₂_nil_left_iff, ints, List.map_nil, List.map_eq_nil_iff]
  | cons a as ih =>
    have hhead := h a List.mem_cons_self
    have htail := @ih fun b hb => h b (List.mem_cons_of_mem a hb)
    rw [mapM_eq_some_iff, List.forall₂_cons_left_iff, List.map_cons]
    constructor
    · rintro ⟨i, rest, hi, hrest, rfl⟩
      rw [← mapM_eq_some_iff, htail] at hrest
      rw [ints, List.map_cons, (hhead i).mp hi]
      exact congrArg (z a :: ·) hrest
    · intro hints
      obtain ⟨i, rest, rfl, hi, hrest⟩ := List.map_eq_cons_iff.mp hints
      exact ⟨i, rest, (hhead i).mpr hi, mapM_eq_some_iff.mp (htail.mpr hrest), rfl⟩

/-- The product may be too large as well, but only where the sum is. -/
theorem ascending_eq_some_iff {start step i : Index} {k : Nat} (hk : k < UInt64.size) :
    ascending start step k = some i ↔ (i.toNat : Int) = start.toNat + step.toNat * k := by
  rw [ascending, Option.bind_eq_some_iff]
  simp only [mul?_eq_some_iff, add?_eq_some_iff, UInt64.toNat_ofNat_of_lt' hk]
  constructor
  · rintro ⟨delta, hdelta, hi⟩
    rw [hi, hdelta]
    simp
  · intro hi
    have hnat : i.toNat = start.toNat + step.toNat * k := by exact_mod_cast hi
    have hlt := i.toNat_lt_size
    obtain ⟨delta, hdelta⟩ := exists_of_lt_size (n := step.toNat * k) (by omega)
    exact ⟨delta, hdelta, by omega⟩

theorem descending_eq_some_iff {start step i : Index} {k : Nat} (hk : k < UInt64.size) :
    descending start step k = some i ↔ (i.toNat : Int) = start.toNat + -step.toNat * k := by
  rw [descending, Option.bind_eq_some_iff]
  simp only [mul?_eq_some_iff, sub?_eq_some_iff, UInt64.toNat_ofNat_of_lt' hk]
  have hneg : (-step.toNat * k : Int) = -(step.toNat * k : Nat) := by
    rw [Int.neg_mul, Int.natCast_mul]
  rw [hneg]
  constructor
  · rintro ⟨delta, hdelta, hi⟩
    omega
  · intro hi
    have hlt := start.toNat_lt_size
    obtain ⟨delta, hdelta⟩ := exists_of_lt_size (n := step.toNat * k) (by omega)
    exact ⟨delta, hdelta, by omega⟩

theorem terms_eq_mapM_range (term : Nat → Option Index) (n : Nat) :
    terms term 0 n = (List.range n).mapM term := by
  rw [terms_eq_mapM, List.range_eq_range']

/-- The text is a numeral of the index; leading zeros do not matter. -/
def Spells (c : String) (i : Index) : Prop := Numeral.read? c.toList = some i.toNat

instance (c : String) (i : Index) : Decidable (Spells c i) :=
  inferInstanceAs (Decidable (_ = _))

theorem spells_iff {c : String} {i : Index} : Spells c i ↔ ofText? c = some i := by
  simp [Spells, ofText?, Option.bind_eq_some_iff, ofNat?_eq_some_iff]

end Index

namespace Grammar

theorem readIndices_eq_ok_iff {captures : List String} {args : List Index} :
    readIndices captures = .ok args ↔ List.Forall₂ Index.Spells captures args := by
  induction captures generalizing args with
  | nil => simp [readIndices, eq_comm]
  | cons c cs ih => simp only [readIndices_cons, List.forall₂_cons_left_iff, Index.spells_iff, ih]

theorem expand_of_spells {g : Grammar} {captures : List String} {args : List Index}
    (h : List.Forall₂ Index.Spells captures args) (sibling : Option (List Index)) :
    g.expand captures sibling = g.indices args sibling := by
  rw [expand, readIndices_eq_ok_iff.mpr h]

def progression (start step : Int) (n : Nat) : List Int :=
  (List.range n).map fun k : Nat => start + step * k

theorem length_progression (start step : Int) (n : Nat) :
    (progression start step n).length = n := by
  simp [progression]

theorem forall_mem_progression {start step : Int} {n : Nat} {p : Int → Prop} :
    (∀ t ∈ progression start step n, p t) ↔ ∀ k < n, p (start + step * k) := by
  simp [progression]

/-- The terms that a grammar computes, in unbounded arithmetic; `args` are the values of its
numerals. -/
inductive Ideal : Grammar → List Index → Option (List Index) → List Int → Prop where
  | stride (start step last : Index) (sibling : Option (List Index)) :
      Ideal .stride [start, step, last] sibling
        (progression start.toNat step.toNat (last.toNat + 1))
  | shift (offset : Index) (base : List Index) :
      Ideal .shift [offset] (some base) (base.map fun i => (i.toNat : Int) + offset.toNat)
  | countUp (start : Index) (base : List Index) :
      Ideal .countUp [start] (some base) (progression start.toNat 1 base.length)
  | countDown (last : Index) (base : List Index) :
      Ideal .countDown [last] (some base) (progression last.toNat (-1) base.length)
  | strideAlong (start step : Index) (base : List Index) :
      Ideal .strideAlong [start, step] (some base)
        (progression start.toNat step.toNat base.length)

/-- Every term is an index. A stride says itself how many terms it has, so it must also be possible
to count them by an index. -/
structure Reachable (g : Grammar) (terms : List Int) : Prop where
  fits : ∀ t ∈ terms, Index.Fits t
  countable : g = .stride → terms.length < UInt64.size

/-- The terms as they are where they can be reached, and else an error of the grammar. -/
structure Yields (g : Grammar) (terms : List Int)
    (outcome : Except ResolveError (List Index)) : Prop where
  ok : Reachable g terms → ∃ content, outcome = .ok content ∧ Index.ints content = terms
  outOfRange : ¬ Reachable g terms → outcome = .error (.indexOutOfRange g)

theorem Yields.ok_iff {g : Grammar} {terms : List Int}
    {outcome : Except ResolveError (List Index)} (h : Yields g terms outcome) :
    (∃ content, outcome = .ok content) ↔ Reachable g terms := by
  constructor
  · rintro ⟨content, rfl⟩
    by_contra hno
    cases h.outOfRange hno
  · intro hr
    obtain ⟨content, hok, _⟩ := h.ok hr
    exact ⟨content, hok⟩

theorem yields_mapM {g : Grammar} {α : Type} {f : α → Option Index} {z : α → Int} {as : List α}
    (h : ∀ a ∈ as, ∀ i, f a = some i ↔ (i.toNat : Int) = z a)
    (hcount : g = .stride → (as.map z).length < UInt64.size) :
    Yields g (as.map z) (inRange g (as.mapM f)) := by
  constructor
  · intro hr
    obtain ⟨content, hcontent⟩ := Index.exists_ints_iff.mpr hr.fits
    exact ⟨content, inRange_eq_ok_iff.mpr ((Index.mapM_eq_some_iff_ints h).mpr hcontent), hcontent⟩
  · intro hno
    cases hm : as.mapM f with
    | none => rfl
    | some content =>
      have hints := (Index.mapM_eq_some_iff_ints h).mp hm
      exact absurd ⟨Index.exists_ints_iff.mp ⟨content, hints⟩, hcount⟩ hno

theorem yields_terms {g : Grammar} {term : Nat → Option Index} {start step : Int} {n : Nat}
    (h : ∀ k < UInt64.size, ∀ i, term k = some i ↔ (i.toNat : Int) = start + step * k)
    (hn : n < UInt64.size) :
    Yields g (progression start step n) (inRange g (Index.terms term 0 n)) := by
  rw [Index.terms_eq_mapM_range, progression]
  apply yields_mapM
  · intro k hk i
    exact h k (Nat.lt_trans (List.mem_range.mp hk) hn) i
  · intro _
    rwa [List.length_map, List.length_range]

theorem yields_ascending {g : Grammar} (start step : Index) {n : Nat} (hn : n < UInt64.size) :
    Yields g (progression start.toNat step.toNat n)
      (inRange g (Index.terms (Index.ascending start step) 0 n)) :=
  yields_terms (fun _ hk _ => Index.ascending_eq_some_iff hk) hn

theorem yields_descending {g : Grammar} (start step : Index) {n : Nat} (hn : n < UInt64.size) :
    Yields g (progression start.toNat (-step.toNat) n)
      (inRange g (Index.terms (Index.descending start step) 0 n)) :=
  yields_terms (fun _ hk _ => Index.descending_eq_some_iff hk) hn

theorem yields_shift (offset : Index) (base : List Index) :
    Yields .shift (base.map fun i => (i.toNat : Int) + offset.toNat)
      (inRange .shift (base.mapM fun i => i.add? offset)) := by
  apply yields_mapM
  · intro i _ j
    rw [Index.add?_eq_some_iff]
    omega
  · exact nofun

theorem yields_stride (start step last : Index) (sibling : Option (List Index)) :
    Yields .stride (progression start.toNat step.toNat (last.toNat + 1))
      (stride.indices [start, step, last] sibling) := by
  change Yields .stride _ (inRange .stride ((last.add? 1).bind fun n =>
    Index.terms (Index.ascending start step) 0 n.toNat))
  cases hn : last.add? 1 with
  | none =>
    -- the number of the terms is no index, even if all of the terms are
    have hsize : UInt64.size ≤ last.toNat + 1 := Index.ofNat?_eq_none_iff.mp hn
    refine ⟨fun hr => ?_, fun _ => rfl⟩
    have hcount := hr.countable rfl
    rw [length_progression] at hcount
    omega
  | some n =>
    have hnat : n.toNat = last.toNat + 1 := Index.add?_eq_some_iff.mp hn
    rw [← hnat]
    exact yields_ascending start step n.toNat_lt_size

theorem Ideal.yields {g : Grammar} {args : List Index} {sibling : Option (List Index)}
    {terms : List Int} (h : Ideal g args sibling terms)
    (hbase : ∀ base ∈ sibling, base.length < UInt64.size) :
    Yields g terms (g.indices args sibling) := by
  cases h with
  | stride start step last sibling => exact yields_stride start step last sibling
  | shift offset base => exact yields_shift offset base
  | countUp start base => exact yields_ascending start 1 (hbase base rfl)
  | countDown last base => exact yields_descending last 1 (hbase base rfl)
  | strideAlong start step base => exact yields_ascending start step (hbase base rfl)

theorem reachable_stride_iff {start step last : Index} :
    Reachable .stride (progression start.toNat step.toNat (last.toNat + 1)) ↔
      last.toNat < UInt64.size - 1 ∧
        start.toNat + step.toNat * last.toNat < UInt64.size := by
  constructor
  · intro h
    have hcount := h.countable rfl
    rw [length_progression] at hcount
    have hlast := (forall_mem_progression.mp h.fits last.toNat (Nat.lt_succ_self _)).2
    exact ⟨by omega, by exact_mod_cast hlast⟩
  · rintro ⟨hcount, hlast⟩
    refine ⟨forall_mem_progression.mpr fun k hk => ?_, fun _ => ?_⟩
    · have hmul : step.toNat * k ≤ step.toNat * last.toNat :=
        Nat.mul_le_mul_left _ (Nat.le_of_lt_succ hk)
      rw [← Int.natCast_mul, ← Int.natCast_add]
      exact Index.fits_natCast (by omega)
    · rw [length_progression]
      omega

theorem reachable_countDown_iff {last : Index} {n : Nat} :
    Reachable .countDown (progression last.toNat (-1) n) ↔ n = 0 ∨ n - 1 ≤ last.toNat := by
  constructor
  · intro h
    by_cases hn : n = 0
    · exact Or.inl hn
    · have hfits := (forall_mem_progression.mp h.fits (n - 1) (by omega)).1
      exact Or.inr (by omega)
  · intro h
    refine ⟨forall_mem_progression.mpr fun k hk => ?_, nofun⟩
    have hlt := last.toNat_lt_size
    exact ⟨by omega, by omega⟩

/-- Every grammar that computes its terms agrees with unbounded arithmetic, or says that it leaves
the range; a stride is in range if its last term and the number of its terms are, and counting down
if it does not pass zero. -/
theorem expand_yields_ideal :
    (∀ g captures args sibling terms, List.Forall₂ Index.Spells captures args →
      Ideal g args sibling terms → (∀ base ∈ sibling, base.length < UInt64.size) →
      Yields g terms (g.expand captures sibling)) ∧
    (∀ captures start step last sibling,
      List.Forall₂ Index.Spells captures [start, step, last] →
      ((∃ content, stride.expand captures sibling = .ok content) ↔
        last.toNat < UInt64.size - 1 ∧
          start.toNat + step.toNat * last.toNat < UInt64.size)) ∧
    ∀ captures last (base : List Index), List.Forall₂ Index.Spells captures [last] →
      base.length < UInt64.size →
      ((∃ content, countDown.expand captures (some base) = .ok content) ↔
        base = [] ∨ base.length - 1 ≤ last.toNat) := by
  refine ⟨?_, ?_, ?_⟩
  · intro g captures args sibling terms hargs hideal hbase
    rw [expand_of_spells hargs]
    exact hideal.yields hbase
  · intro captures start step last sibling hargs
    rw [expand_of_spells hargs, (yields_stride start step last sibling).ok_iff]
    exact reachable_stride_iff
  · intro captures last base hargs hbase
    have hyields : Yields .countDown (progression last.toNat (-1) base.length)
        (countDown.indices [last] (some base)) := yields_descending last 1 hbase
    rw [expand_of_spells hargs, hyields.ok_iff, ← List.length_eq_zero_iff]
    exact reachable_countDown_iff

theorem expand_yields_ideal_at_limit :
    List.Forall₂ Index.Spells ["1", "002", "9223372036854775807"] [1, 2, 9223372036854775807] ∧
    (∃ content, stride.expand ["1", "002", "9223372036854775807"] none = .ok content) ∧
    List.Forall₂ Index.Spells ["2"] [2] ∧ Ideal .countDown [2] (some [7, 7, 7, 7]) [2, 1, 0, -1] ∧
    countDown.expand ["2"] (some [7, 7, 7, 7]) = .error (.indexOutOfRange .countDown) ∧
    (∃ content, countDown.expand ["2"] (some [7, 7, 7]) = .ok content) := by
  have hstride : List.Forall₂ Index.Spells ["1", "002", "9223372036854775807"]
      [1, 2, 9223372036854775807] :=
    .cons (by decide +kernel) (.cons (by decide +kernel) (.cons (by decide +kernel) .nil))
  have hdown : List.Forall₂ Index.Spells ["2"] [2] := .cons (by decide +kernel) .nil
  have hideal : Ideal .countDown [2] (some [7, 7, 7, 7]) [2, 1, 0, -1] := .countDown 2 [7, 7, 7, 7]
  have hnegative : ¬ Reachable .countDown [2, 1, 0, -1] := by
    intro h
    exact absurd (h.fits (-1) (by simp)).1 (by decide)
  have hshort : ∀ base ∈ some [(7 : Index), 7, 7, 7], base.length < UInt64.size := by
    rintro base ⟨⟩
    decide
  obtain ⟨hyields, hsteps, hcount⟩ := expand_yields_ideal
  exact ⟨hstride, (hsteps _ _ _ _ none hstride).mpr (by decide), hdown, hideal,
    (hyields _ _ _ _ _ hdown hideal hshort).outOfRange hnegative,
    (hcount _ _ _ hdown (by decide)).mpr (Or.inr (by decide))⟩

end Grammar

end Pinout
