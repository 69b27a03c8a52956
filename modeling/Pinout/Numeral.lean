/-!
Decimal numerals. Writing gives the shortest numeral of a number, reading takes any numeral,
so a number survives being written and read.
-/

namespace Pinout.Numeral

/-- One or more of the digits 0 to 9. -/
def isNumeral (cs : List Char) : Bool := !cs.isEmpty && cs.all Char.isDigit

/-- The number that a run of digits stands for; leading zeros count for nothing. -/
def value (cs : List Char) : Nat := Nat.ofDigitChars 10 cs 0

def ofNat (n : Nat) : List Char := Nat.toDigits 10 n

def text (n : Nat) : String := String.ofList (ofNat n)

/-- Reads a numeral that may have one plus sign in front. -/
def read? (cs : List Char) : Option Nat :=
  let digits := match cs with
    | '+' :: ds => ds
    | ds => ds
  if isNumeral digits then some (value digits) else none

theorem value_ofNat (n : Nat) : value (ofNat n) = n :=
  Nat.ofDigitChars_toDigits (by decide) (by decide)

theorem isDigit_of_mem_ofNat {n : Nat} {c : Char} (h : c ∈ ofNat n) : c.isDigit = true :=
  Nat.isDigit_of_mem_toDigits (by decide) (by decide) h

theorem isNumeral_ofNat (n : Nat) : isNumeral (ofNat n) = true := by
  have hne : ofNat n ≠ [] := by
    intro h
    have := @Nat.length_toDigits_pos 10 n
    simp_all [ofNat]
  simp only [isNumeral, Bool.and_eq_true, Bool.not_eq_true', List.isEmpty_eq_false_iff,
    List.all_eq_true]
  exact ⟨hne, fun c hc => isDigit_of_mem_ofNat hc⟩

theorem read?_of_isNumeral {cs : List Char} (h : isNumeral cs = true) :
    read? cs = some (value cs) := by
  cases cs with
  | nil => simp [isNumeral] at h
  | cons c cs =>
    by_cases hc : c = '+'
    · subst hc
      simp [isNumeral] at h
    · simp [read?, hc, h]

theorem read?_ofNat (n : Nat) : read? (ofNat n) = some n := by
  rw [read?_of_isNumeral (isNumeral_ofNat n), value_ofNat]

end Pinout.Numeral
