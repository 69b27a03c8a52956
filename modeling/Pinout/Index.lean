import Pinout.Numeral

/-!
Indices are 64-bit words. Arithmetic on them never wraps: a result that does not fit is absent.
-/

namespace Pinout

abbrev Index := UInt64

namespace Index

def ofNat? (n : Nat) : Option Index :=
  if h : n < UInt64.size then some (UInt64.ofNatLT n h) else none

def add? (a b : Index) : Option Index := ofNat? (a.toNat + b.toNat)

def mul? (a b : Index) : Option Index := ofNat? (a.toNat * b.toNat)

def sub? (a b : Index) : Option Index := if b ≤ a then some (a - b) else none

/-- The decimal form, without leading zeros. -/
def text (i : Index) : String := Numeral.text i.toNat

/-- Reads a numeral, with or without a plus sign, whose value fits. -/
def ofText? (s : String) : Option Index := (Numeral.read? s.toList).bind ofNat?

theorem ofNat?_eq_some_iff {n : Nat} {i : Index} : ofNat? n = some i ↔ i.toNat = n := by
  unfold ofNat?
  split
  · next h =>
    rw [Option.some.injEq]
    constructor
    · rintro rfl
      simp
    · rintro rfl
      simp
  · next h =>
    refine ⟨nofun, ?_⟩
    rintro rfl
    exact absurd i.toNat_lt h

theorem ofNat?_eq_none_iff {n : Nat} : ofNat? n = none ↔ UInt64.size ≤ n := by
  unfold ofNat?
  split <;> simp <;> omega

theorem add?_eq_some_iff {a b c : Index} :
    a.add? b = some c ↔ c.toNat = a.toNat + b.toNat :=
  ofNat?_eq_some_iff

theorem mul?_eq_some_iff {a b c : Index} :
    a.mul? b = some c ↔ c.toNat = a.toNat * b.toNat :=
  ofNat?_eq_some_iff

theorem sub?_eq_some_iff {a b c : Index} :
    a.sub? b = some c ↔ c.toNat + b.toNat = a.toNat := by
  have hc := c.toNat_lt
  have ha := a.toNat_lt
  unfold sub?
  split
  · next h =>
    have hle := UInt64.le_iff_toNat_le.mp h
    have hsub := UInt64.toNat_sub_of_le a b h
    rw [Option.some.injEq]
    constructor
    · rintro rfl
      omega
    · intro he
      apply UInt64.toNat_inj.mp
      omega
  · next h =>
    have hlt := fun hle => h (UInt64.le_iff_toNat_le.mpr hle)
    refine ⟨nofun, fun he => ?_⟩
    exact absurd (by omega) hlt

theorem ofText?_text (i : Index) : ofText? i.text = some i := by
  simp [ofText?, text, Numeral.text, Numeral.read?_ofNat, ofNat?_eq_some_iff]

end Index

end Pinout
