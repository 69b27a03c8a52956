import Pinout.Json.Problem
import Pinout.Octets

/-!
Numbers where a text should be. They are a problem in any case; which one depends on how the number
is written and on whether it is within the range of a binary64 number.
-/

namespace Pinout.Json

def isDigit (b : UInt8) : Bool := (Octets.char b).isDigit

def digitValue (b : UInt8) : Nat := b.toNat - 0x30

namespace Number

/-- `significand` is below 2^64; the digits that it has no room for go into the exponent. -/
structure Magnitude where
  significand : Nat
  exponent : Int

/-- The significand with as many of the digits as it has room for, and how many those are. -/
def absorb (significand : Nat) : List UInt8 → Nat × Nat
  | [] => (significand, 0)
  | d :: ds =>
    let next := significand * 10 + digitValue d
    if next < Nat.pow 2 64 then
      let (s, n) := absorb next ds
      (s, n + 1)
    else (significand, 0)

def ofInteger (digits : List UInt8) : Magnitude :=
  let (s, n) := absorb 0 digits
  ⟨s, digits.length - n⟩

/-- Digits after the point; those without room are dropped. -/
def Magnitude.withFraction (m : Magnitude) (digits : List UInt8) : Magnitude :=
  let (s, n) := absorb m.significand digits
  ⟨s, m.exponent - n⟩

/-- The nearest number of 53 significant bits, the even one of two. -/
def nearest53 (n : Nat) : Nat :=
  let unit := Nat.pow 2 (n.log2 - 52)
  let q := n / unit
  let twice := 2 * (n % unit)
  (if twice < unit ∨ twice = unit ∧ q % 2 = 0 then q else q + 1) * unit

/-- Beyond the largest binary64 number, after the significand and the power of ten have been
rounded each. -/
def Magnitude.isTooLarge (m : Magnitude) : Bool :=
  if m.significand = 0 ∨ m.exponent < 0 then false
  else if 308 < m.exponent then true
  else Nat.pow 2 1024 - Nat.pow 2 970 ≤
      nearest53 m.significand * nearest53 (Nat.pow 10 m.exponent.toNat)

def decimalValue (digits : List UInt8) : Nat :=
  digits.foldl (fun n d => 10 * n + digitValue d) 0

/-- The number is over; an unread remainder of the octets might have gone on with it. -/
def close (complete : Bool) (m : Magnitude) (rest : Octets) : Problem :=
  if rest.isEmpty && !complete then .unreadable
  else if m.isTooLarge then .malformed
  else .unfitting

def exponentDigits (complete : Bool) (m : Magnitude) (negative : Bool) (os : Octets) : Problem :=
  let digits := os.takeWhile isDigit
  let rest := os.dropWhile isDigit
  if os.isEmpty then ending complete
  else if digits.isEmpty then .malformed
  else if Nat.pow 2 31 ≤ decimalValue digits then
    if m.significand ≠ 0 ∧ !negative then .malformed else close complete ⟨0, 0⟩ rest
  else
    let e : Int := decimalValue digits
    close complete ⟨m.significand, if negative then m.exponent - e else m.exponent + e⟩ rest

def exponent (complete : Bool) (m : Magnitude) : Octets → Problem
  | [] => close complete m []
  | b :: rest =>
    if Octets.char b = 'e' ∨ Octets.char b = 'E' then
      match rest with
      | [] => ending complete
      | s :: rest' =>
        if Octets.char s = '-' then exponentDigits complete m true rest'
        else if Octets.char s = '+' then exponentDigits complete m false rest'
        else exponentDigits complete m false rest
    else close complete m (b :: rest)

def fraction (complete : Bool) (m : Magnitude) : Octets → Problem
  | [] => close complete m []
  | b :: rest =>
    if Octets.char b = '.' then
      let digits := rest.takeWhile isDigit
      if digits.isEmpty then (if rest.isEmpty then ending complete else .malformed)
      else exponent complete (m.withFraction digits) (rest.dropWhile isDigit)
    else exponent complete m (b :: rest)

/-- The problem with a number, read after its minus sign; a zero in front stands alone. -/
def problem (complete : Bool) (os : Octets) : Problem :=
  let digits := os.takeWhile isDigit
  if os.isEmpty then ending complete
  else if digits.isEmpty then .malformed
  else if digits.head? = some 0x30 ∧ 1 < digits.length then .malformed
  else fraction complete (ofInteger digits) (os.dropWhile isDigit)

end Number

end Pinout.Json
