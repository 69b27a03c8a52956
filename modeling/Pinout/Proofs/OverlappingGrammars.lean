import Pinout.Proofs.Climbing
import Pinout.Proofs.IdealTerms
import Pinout.Proofs.ListedContents

/-!
Grammars that say the same in part. Every content that is computed is a progression of plain
integers, whichever way it is computed; so two notations agree as soon as the first term, the step
and the number of terms do, and a progression read backwards runs in the opposite step.
-/

namespace Pinout

namespace Index

theorem ints_injective : Function.Injective ints := by
  apply List.map_injective_iff.mpr
  intro i j h
  apply UInt64.toNat_inj.mp
  exact Int.ofNat_inj.mp h

theorem ints_reverse (content : List Index) : ints content.reverse = (ints content).reverse :=
  List.map_reverse

end Index

namespace Grammar

open Index (ints between climb)
open Specifier (decimals expand_decimals)

theorem getElem_progression {start step : Int} {n k : Nat}
    (h : k < (progression start step n).length) :
    (progression start step n)[k] = start + step * k := by
  simp [progression]

theorem reverse_progression (start step : Int) (n : Nat) :
    (progression start step (n + 1)).reverse = progression (start + step * n) (-step) (n + 1) := by
  apply List.ext_getElem
  · rw [List.length_reverse, length_progression, length_progression]
  · intro k h _
    rw [List.length_reverse, length_progression] at h
    rw [List.getElem_reverse, getElem_progression, getElem_progression, length_progression]
    obtain ⟨j, rfl⟩ := Nat.exists_eq_add_of_le (Nat.le_of_lt_succ h)
    have hj : k + j + 1 - 1 - k = j := by omega
    rw [hj, Int.natCast_add, Int.mul_add, Int.neg_mul]
    omega

theorem map_range'_eq_progression (start step n : Nat) :
    (List.range' start n step).map Int.ofNat = progression start step n := by
  apply List.ext_getElem
  · rw [List.length_map, List.length_range', length_progression]
  · intro k _ _
    rw [List.getElem_map, List.getElem_range', getElem_progression]
    exact (Int.natCast_add ..).trans (congrArg _ (Int.natCast_mul ..))

theorem ints_between_of_le {a b : Index} (h : a ≤ b) :
    ints (between a b) = progression a.toNat 1 (b.toNat - a.toNat + 1) := by
  have hle := UInt64.le_iff_toNat_le.mp h
  have hb := b.toNat_lt_size
  rw [between, if_pos h, ints, List.map_map, progression]
  apply List.map_congr_left
  intro k hk
  have hk := List.mem_range.mp hk
  have hfits : a.toNat + k < UInt64.size := by omega
  have hsum : (a + UInt64.ofNat k).toNat = a.toNat + k := by
    rw [UInt64.toNat_add, UInt64.toNat_ofNat_of_lt' (by omega)]
    exact Nat.mod_eq_of_lt hfits
  change ((a + UInt64.ofNat k).toNat : Int) = a.toNat + 1 * k
  rw [hsum]
  omega

theorem ints_between_of_lt {a b : Index} (h : b < a) :
    ints (between a b) = progression a.toNat (-1) (a.toNat - b.toNat + 1) := by
  have hlt := UInt64.lt_iff_toNat_lt.mp h
  have ha := a.toNat_lt_size
  rw [between, if_neg (UInt64.not_le.mpr h), ints, List.map_map, progression]
  apply List.map_congr_left
  intro k hk
  have hk := List.mem_range.mp hk
  have hnat : (UInt64.ofNat k).toNat = k := UInt64.toNat_ofNat_of_lt' (by omega)
  have hle : UInt64.ofNat k ≤ a := UInt64.le_iff_toNat_le.mpr (by omega)
  change ((a - UInt64.ofNat k).toNat : Int) = a.toNat + -1 * k
  rw [UInt64.toNat_sub_of_le a _ hle, hnat]
  omega

theorem ints_climb {first step last : Index} (hs : step ≠ 0) (h : first ≤ last) :
    ints (climb first step last) = progression first.toNat step.toNat
      ((last.toNat - first.toNat) / step.toNat + 1) := by
  have hmap := (Index.climbs_climb hs first last).map_toNat hs h
  calc ints (climb first step last)
      = ((climb first step last).map UInt64.toNat).map Int.ofNat := List.map_map.symm
    _ = _ := by rw [hmap, map_range'_eq_progression]

theorem reverse_between_of_lt {a b : Index} (h : a < b) :
    (between a b).reverse = between b a := by
  have hlt := UInt64.lt_iff_toNat_lt.mp h
  apply Index.ints_injective
  rw [Index.ints_reverse, ints_between_of_le (UInt64.le_of_lt h), ints_between_of_lt h,
    reverse_progression]
  congr 1
  omega

theorem reverse_between (a b : Index) : (between a b).reverse = between b a := by
  rcases UInt64.lt_or_le a b with h | h
  · exact reverse_between_of_lt h
  · rcases UInt64.lt_or_eq_of_le h with h | rfl
    · rw [← reverse_between_of_lt h, List.reverse_reverse]
    · apply Index.ints_injective
      rw [Index.ints_reverse, ints_between_of_le UInt64.le_rfl, Nat.sub_self, reverse_progression]
      rfl

theorem between_eq_climb {a b : Index} (h : a ≤ b) : between a b = climb a 1 b := by
  apply Index.ints_injective
  rw [ints_between_of_le h, ints_climb (by decide) h]
  change _ = progression a.toNat 1 ((b.toNat - a.toNat) / 1 + 1)
  rw [Nat.div_one]

variable {start step last m : Index} {base content : List Index}

theorem indices_stride_and_strideTo (hs : step ≠ 0) (hm : m.toNat < UInt64.size - 1)
    (hlast : last.toNat = start.toNat + step.toNat * m.toNat)
    (sibling sibling' : Option (List Index)) :
    ∃ content, stride.indices [start, step, m] sibling = .ok content ∧
      strideTo.indices [start, step, last] sibling' = .ok content := by
  have hlt := last.toNat_lt_size
  have hle : start ≤ last := UInt64.le_iff_toNat_le.mpr (by omega)
  have hreach := reachable_stride_iff.mpr ⟨hm, hlast ▸ hlt⟩
  obtain ⟨content, hok, hints⟩ := (yields_stride start step m sibling).ok hreach
  refine ⟨content, hok, ?_⟩
  rw [indices_strideTo_of_le hle hs, Except.ok.injEq]
  apply Index.ints_injective
  rw [ints_climb hs hle, hints, hlast, Nat.add_sub_cancel_left,
    Nat.mul_div_cancel_left _ (Index.toNat_pos hs)]

theorem indices_strideAlong_iff_stride (hbase : base.length < UInt64.size)
    (hm : base.length = m.toNat + 1) (sibling : Option (List Index)) :
    strideAlong.indices [start, step] (some base) = .ok content ↔
      stride.indices [start, step, m] sibling = .ok content := by
  obtain ⟨n, hn⟩ := Index.exists_of_lt_size hbase
  have hadd : m.add? 1 = some n := Index.add?_eq_some_iff.mpr (hn.trans hm)
  change inRange strideAlong (Index.terms (Index.ascending start step) 0 base.length) = _ ↔
    inRange stride ((m.add? 1).bind fun n =>
      Index.terms (Index.ascending start step) 0 n.toNat) = _
  rw [inRange_eq_ok_iff, inRange_eq_ok_iff, hadd, Option.bind_some, hn]

theorem indices_countUp_iff_strideAlong :
    countUp.indices [start] (some base) = .ok content ↔
      strideAlong.indices [start, 1] (some base) = .ok content := by
  change inRange countUp (Index.terms (Index.ascending start 1) 0 base.length) = _ ↔
    inRange strideAlong (Index.terms (Index.ascending start 1) 0 base.length) = _
  rw [inRange_eq_ok_iff, inRange_eq_ok_iff]

theorem indices_shift_zero (base : List Index) : shift.indices [0] (some base) = .ok base := by
  change inRange shift (base.mapM fun i => i.add? 0) = .ok base
  apply inRange_eq_ok_iff.mpr
  apply mapM_eq_some_iff.mpr
  apply List.forall₂_same.mpr
  intro i _
  exact Index.add?_eq_some_iff.mpr rfl

theorem reachable_countUp {n : Nat} (hlast : last.toNat = start.toNat + n) :
    Reachable .countUp (progression start.toNat 1 (n + 1)) := by
  refine ⟨forall_mem_progression.mpr ?_, nofun⟩
  intro k hk
  have hlt := last.toNat_lt_size
  exact ⟨by omega, by omega⟩

theorem indices_countUp_and_countDown {n : Nat} (hbase : base.length < UInt64.size)
    (hn : base.length = n + 1) (hlast : last.toNat = start.toNat + n) :
    ∃ content, countUp.indices [start] (some base) = .ok content ∧
      countDown.indices [last] (some base) = .ok content.reverse := by
  have hup : Yields .countUp (progression start.toNat 1 base.length)
      (countUp.indices [start] (some base)) := yields_ascending start 1 hbase
  have hdown : Yields .countDown (progression last.toNat (-1) base.length)
      (countDown.indices [last] (some base)) := yields_descending last 1 hbase
  rw [hn] at hup hdown
  have hreach : Reachable .countDown (progression last.toNat (-1) (n + 1)) :=
    reachable_countDown_iff.mpr (Or.inr (by omega))
  obtain ⟨content, hok, hints⟩ := hup.ok (reachable_countUp hlast)
  obtain ⟨content', hok', hints'⟩ := hdown.ok hreach
  have hreverse : content' = content.reverse := by
    apply Index.ints_injective
    rw [hints', Index.ints_reverse, hints, reverse_progression]
    congr 1
    omega
  exact ⟨content, hok, hreverse ▸ hok'⟩

theorem capture_of_write_decimals {g : Grammar} {args : List Index} {text : String}
    (h : g.write? (decimals args) = some text) : g.capture text = some (decimals args) := by
  apply capture_eq_some_iff.mpr
  exact ⟨fun c hc => Specifier.isNumeral_of_mem_decimals hc, h⟩

/-- Different notations for the same indices, or for the same indices backwards, agree. A notation
counts by its numerals in decimal: it captures them as they are, and others of the same values come
to the same. -/
theorem expand_overlaps :
    (∀ g args text, write? g (decimals args) = some text →
      capture g text = some (decimals args)) ∧
    (∀ g captures args sibling, List.Forall₂ Index.Spells captures args →
      expand g captures sibling = expand g (decimals args) sibling) ∧
    (∀ x y sibling sibling', ∃ content, range.expand (decimals [x, y]) sibling = .ok content ∧
      range.expand (decimals [y, x]) sibling' = .ok content.reverse) ∧
    (∀ x y sibling sibling', x ≤ y → range.expand (decimals [x, y]) sibling =
      strideTo.expand (decimals [x, 1, y]) sibling') ∧
    (∀ start step n last sibling sibling', step ≠ 0 → n.toNat < UInt64.size - 1 →
      last.toNat = start.toNat + step.toNat * n.toNat →
      ∃ content, stride.expand (decimals [start, step, n]) sibling = .ok content ∧
        strideTo.expand (decimals [start, step, last]) sibling' = .ok content) ∧
    (∀ start step m (base : List Index) sibling content, base.length < UInt64.size →
      base.length = m.toNat + 1 →
      (strideAlong.expand (decimals [start, step]) (some base) = .ok content ↔
        stride.expand (decimals [start, step, m]) sibling = .ok content)) ∧
    (∀ start base content, countUp.expand (decimals [start]) (some base) = .ok content ↔
      strideAlong.expand (decimals [start, 1]) (some base) = .ok content) ∧
    (∀ base, shift.expand (decimals [0]) (some base) = .ok base ∧
      reuse.expand [] (some base) = .ok base) ∧
    ∀ (start last : Index) n (base : List Index), base.length < UInt64.size →
      base.length = n + 1 → last.toNat = start.toNat + n →
      ∃ content, countUp.expand (decimals [start]) (some base) = .ok content ∧
        countDown.expand (decimals [last]) (some base) = .ok content.reverse := by
  simp only [expand_decimals]
  refine ⟨?_, ?_, ?_, ?_, ?_, ?_, ?_, ?_, ?_⟩
  · intro g args text h
    exact capture_of_write_decimals h
  · intro g captures args sibling h
    exact expand_of_spells h sibling
  · intro x y sibling sibling'
    exact ⟨between x y, rfl, congrArg Except.ok (reverse_between x y).symm⟩
  · intro x y sibling sibling' h
    rw [indices_strideTo_of_le h (by decide)]
    exact congrArg Except.ok (between_eq_climb h)
  · intro start step n last sibling sibling' hs hn hlast
    exact indices_stride_and_strideTo hs hn hlast sibling sibling'
  · intro start step m base sibling content hbase hm
    exact indices_strideAlong_iff_stride hbase hm sibling
  · intro start base content
    exact indices_countUp_iff_strideAlong
  · intro base
    exact ⟨indices_shift_zero base, rfl⟩
  · intro start last n base hbase hn hlast
    exact indices_countUp_and_countDown hbase hn hlast

theorem expand_overlaps_at_limit :
    capture countDown "#..18446744073709551615" = some (decimals [18446744073709551615]) ∧
    expand range ["07", "+3"] none = expand range (decimals [7, 3]) none ∧
    range.expand (decimals [18446744073709551614, 18446744073709551615]) none =
      strideTo.expand (decimals [18446744073709551614, 1, 18446744073709551615]) none ∧
    (∃ content, stride.expand (decimals [1, 2, 9223372036854775807]) none = .ok content ∧
      strideTo.expand (decimals [1, 2, 18446744073709551615]) none = .ok content) ∧
    (∀ content,
      strideAlong.expand (decimals [18446744073709551613, 2]) (some [7, 7]) = .ok content ↔
        stride.expand (decimals [18446744073709551613, 2, 1]) none = .ok content) ∧
    ∃ content,
      countUp.expand (decimals [18446744073709551613]) (some [5, 5, 0]) = .ok content ∧
        countDown.expand (decimals [18446744073709551615]) (some [5, 5, 0]) =
          .ok content.reverse := by
  have hspells : List.Forall₂ Index.Spells ["07", "+3"] [7, 3] :=
    .cons (by decide +kernel) (.cons (by decide +kernel) .nil)
  obtain ⟨hcapture, hvalue, _, hclimb, hstride, halong, _, _, hdown⟩ := expand_overlaps
  refine ⟨?_, ?_, ?_, ?_, ?_, ?_⟩
  · exact hcapture countDown _ _ (by decide +kernel)
  · exact hvalue range _ _ none hspells
  · exact hclimb _ _ none none (by decide)
  · exact hstride 1 2 9223372036854775807 _ none none (by decide) (by decide) (by decide)
  · intro content
    exact halong _ 2 1 [7, 7] none content (by decide) (by decide)
  · exact hdown _ _ 2 [5, 5, 0] (by decide) (by decide) (by decide)

end Grammar

end Pinout
