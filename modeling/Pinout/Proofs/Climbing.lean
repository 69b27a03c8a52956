import Mathlib.Data.List.Basic
import Mathlib.Data.Nat.Basic
import Pinout.Specifier.Expand

/-!
Climbing from one index towards another in equal steps. The loop that adds the step comes to an
end for every step but zero, and it meets each index of the range that lies a multiple of the step
above the first, in order.
-/

namespace Pinout

namespace Index

/-- Adds `step` over and over, from `first` on, as long as the sum is an index and does not pass
`last`. Nothing else ends it. -/
inductive Climbs (step last : Index) : Index → List Index → Prop where
  | stop {first : Index} : (∀ next, first.add? step = some next → ¬ next ≤ last) →
      Climbs step last first [first]
  | go {first next : Index} {content : List Index} : first.add? step = some next → next ≤ last →
      Climbs step last next content → Climbs step last first (first :: content)

theorem toNat_pos {i : Index} (h : i ≠ 0) : 0 < i.toNat :=
  UInt64.lt_iff_toNat_lt.mp (UInt64.pos_iff_ne_zero.mpr h)

theorem lt_of_add? {first step next : Index} (hs : step ≠ 0) (h : first.add? step = some next) :
    first < next := by
  have hsum := add?_eq_some_iff.mp h
  have hpos := toNat_pos hs
  exact UInt64.lt_iff_toNat_lt.mpr (by omega)

/-- The loop ends, and `climb` is what it gathers. -/
theorem climbs_climb {step : Index} (hs : step ≠ 0) (first last : Index) :
    Climbs step last first (climb first step last) := by
  fun_induction climb first step last with
  | case1 first hnone =>
    apply Climbs.stop
    intro next h
    rw [hnone] at h
    cases h
  | case2 first next h hle ih => exact .go h hle.2 ih
  | case3 first next h hle =>
    apply Climbs.stop
    intro next' h' hlast
    rw [h] at h'
    cases h'
    exact hle ⟨lt_of_add? hs h, hlast⟩

theorem lt_add_of_stop {first step last : Index}
    (h : ∀ next, first.add? step = some next → ¬ next ≤ last) :
    last.toNat < first.toNat + step.toNat := by
  cases hn : first.add? step with
  | none =>
    -- a sum that is no index lies above `last`, which is one
    have hsize : UInt64.size ≤ first.toNat + step.toNat := ofNat?_eq_none_iff.mp hn
    have hlast := last.toNat_lt_size
    omega
  | some next =>
    have hsum := add?_eq_some_iff.mp hn
    have hnot := mt UInt64.le_iff_toNat_le.mpr (h next hn)
    omega

theorem Climbs.map_toNat {step last first : Index} {content : List Index}
    (h : Climbs step last first content) (hs : step ≠ 0) (hle : first ≤ last) :
    content.map UInt64.toNat =
      List.range' first.toNat ((last.toNat - first.toNat) / step.toNat + 1) step.toNat := by
  induction h with
  | @stop first hstop =>
    have hlt := lt_add_of_stop hstop
    have hle := UInt64.le_iff_toNat_le.mp hle
    have hzero : (last.toNat - first.toNat) / step.toNat = 0 := Nat.div_eq_of_lt (by omega)
    rw [hzero]
    rfl
  | @go first next content hadd hnext _ ih =>
    have hsum := add?_eq_some_iff.mp hadd
    have hle := UInt64.le_iff_toNat_le.mp hnext
    -- one step further, `last` is one multiple of the step nearer
    have hrungs : (last.toNat - first.toNat) / step.toNat =
        (last.toNat - next.toNat) / step.toNat + 1 := by
      rw [← Nat.add_div_right _ (toNat_pos hs)]
      congr 1
      omega
    rw [hrungs, List.range'_succ, ← hsum, ← ih hnext, List.map_cons]

/-- The indices from `start` to `last` that lie a multiple of `step` above `start`. -/
structure Rungs (start step last : Index) (content : List Index) : Prop where
  ascending : content.Pairwise (· < ·)
  mem_iff : ∀ i, i ∈ content ↔ start ≤ i ∧ i ≤ last ∧ step.toNat ∣ i.toNat - start.toNat
  length_eq : content.length = (last.toNat - start.toNat) / step.toNat + 1
  head_eq : content.head? = some start

theorem mem_range'_div_iff {start step last n : Nat} (hs : 0 < step) (hle : start ≤ last) :
    n ∈ List.range' start ((last - start) / step + 1) step ↔
      start ≤ n ∧ n ≤ last ∧ step ∣ n - start := by
  rw [List.mem_range']
  constructor
  · rintro ⟨k, hk, rfl⟩
    have hmul : step * k ≤ last - start := by
      calc step * k ≤ step * ((last - start) / step) :=
            Nat.mul_le_mul_left step (Nat.le_of_lt_succ hk)
        _ ≤ last - start := Nat.mul_div_le _ _
    exact ⟨by omega, by omega, ⟨k, by omega⟩⟩
  · rintro ⟨hstart, hlast, k, hk⟩
    refine ⟨k, Nat.lt_succ_of_le ?_, by omega⟩
    rw [Nat.le_div_iff_mul_le hs, Nat.mul_comm]
    omega

theorem Climbs.rungs {start step last : Index} {content : List Index}
    (h : Climbs step last start content) (hs : step ≠ 0) (hle : start ≤ last) :
    Rungs start step last content := by
  have hmap := h.map_toNat hs hle
  refine ⟨?_, fun i => ?_, ?_, ?_⟩
  · have hsorted := List.pairwise_lt_range' step.toNat (toNat_pos hs)
      (s := start.toNat) (n := (last.toNat - start.toNat) / step.toNat + 1)
    rw [← hmap, List.pairwise_map] at hsorted
    exact hsorted.imp UInt64.lt_iff_toNat_lt.mpr
  · have hinj : Function.Injective UInt64.toNat := fun _ _ => UInt64.toNat_inj.mp
    rw [← List.mem_map_of_injective hinj, hmap,
      mem_range'_div_iff (toNat_pos hs) (UInt64.le_iff_toNat_le.mp hle),
      UInt64.le_iff_toNat_le, UInt64.le_iff_toNat_le]
  · have hlen := congrArg List.length hmap
    rwa [List.length_map, List.length_range'] at hlen
  · cases h <;> rfl

end Index

namespace Grammar

theorem indices_strideTo_of_lt {start step last : Index} (h : last < start)
    (sibling : Option (List Index)) : strideTo.indices [start, step, last] sibling = .ok [] := by
  simp [indices, h]

theorem indices_strideTo_of_zero {start last : Index} (h : start ≤ last)
    (sibling : Option (List Index)) :
    strideTo.indices [start, 0, last] sibling = .error (.zeroStep strideTo) := by
  simp [indices, UInt64.not_lt.mpr h]

theorem indices_strideTo_of_le {start step last : Index} (h : start ≤ last) (hs : step ≠ 0)
    (sibling : Option (List Index)) :
    strideTo.indices [start, step, last] sibling = .ok (Index.climb start step last) := by
  simp [indices, UInt64.not_lt.mpr h, hs]

/-- A range that goes down has no index, whatever the step; one that does not has all its rungs,
and the loop that gathers them ends, unless the step is zero. -/
theorem indices_strideTo_climbs (start step last : Index) (sibling : Option (List Index)) :
    (last < start → strideTo.indices [start, step, last] sibling = .ok []) ∧
    (start ≤ last → step = 0 →
      strideTo.indices [start, step, last] sibling = .error (.zeroStep strideTo)) ∧
    (start ≤ last → step ≠ 0 → ∃ content,
      strideTo.indices [start, step, last] sibling = .ok content ∧
      Index.Climbs step last start content ∧ Index.Rungs start step last content) ∧
    ∀ g, strideTo.indices [start, step, last] sibling ≠ .error (.indexOutOfRange g) := by
  refine ⟨fun h => indices_strideTo_of_lt h sibling, ?_, ?_, ?_⟩
  · rintro h rfl
    exact indices_strideTo_of_zero h sibling
  · intro h hs
    have hclimbs := Index.climbs_climb hs start last
    exact ⟨_, indices_strideTo_of_le h hs sibling, hclimbs, hclimbs.rungs hs h⟩
  · intro g he
    rcases UInt64.lt_or_le last start with h | h
    · rw [indices_strideTo_of_lt h] at he
      cases he
    · by_cases hs : step = 0
      · subst hs
        rw [indices_strideTo_of_zero h] at he
        cases he
      · rw [indices_strideTo_of_le h hs] at he
        cases he

theorem indices_strideTo_climbs_at_limit :
    (2 : Index) < 10 ∧ strideTo.indices [10, 0, 2] none = .ok [] ∧
    (0 : Index) ≤ 5 ∧ strideTo.indices [0, 0, 5] (some [7]) = .error (.zeroStep strideTo) ∧
    (18446744073709551610 : Index) ≤ 18446744073709551615 ∧ (3 : Index) ≠ 0 ∧
    strideTo.indices [18446744073709551610, 3, 18446744073709551615] none =
      .ok [18446744073709551610, 18446744073709551613] ∧
    Index.Rungs 18446744073709551610 3 18446744073709551615
      [18446744073709551610, 18446744073709551613] := by
  have hdown : (2 : Index) < 10 := by decide
  have hup : (0 : Index) ≤ 5 := by decide
  have hlimit : (18446744073709551610 : Index) ≤ 18446744073709551615 := by decide
  have hstep : (3 : Index) ≠ 0 := by decide
  have hcontent : strideTo.indices [18446744073709551610, 3, 18446744073709551615] none =
      .ok [18446744073709551610, 18446744073709551613] := by decide +kernel
  obtain ⟨content, hok, _, hrungs⟩ := (indices_strideTo_climbs _ _ _ none).2.2.1 hlimit hstep
  cases hcontent.symm.trans hok
  exact ⟨hdown, (indices_strideTo_climbs _ _ _ none).1 hdown, hup,
    (indices_strideTo_climbs _ _ _ (some [7])).2.1 hup rfl, hlimit, hstep, hcontent, hrungs⟩

end Grammar

end Pinout
