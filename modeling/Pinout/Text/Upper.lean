import Pinout.Text.CaseTable

/-!
Full Unicode upper-casing, character by character, which can lengthen a text. A text in upper
case stays as it is, so upper-casing twice is upper-casing once.
-/

namespace Pinout.Text

/-- The code points of the upper-case form. -/
def upperCode (n : Nat) : List Nat :=
  match caseRuns.find? (·.covers n) with
  | some r => [r.form n]
  | none =>
    match caseExpansions.find? (·.1 == n) with
    | some e => e.2
    | none => [n]

def upperChar (c : Char) : List Char := (upperCode c.toNat).map Char.ofNat

def upper (s : String) : String := String.ofList (s.toList.flatMap upperChar)

/-- Every code point that has a form other than itself. -/
def lowerCodes : List Nat :=
  caseRuns.flatMap (fun r => r.offsets.map (r.first + ·)) ++ caseExpansions.map (·.1)

/-- Every code point that occurs in a form. -/
def formCodes : List Nat :=
  caseRuns.flatMap (fun r => r.offsets.map (r.target + ·)) ++ caseExpansions.flatMap (·.2)

/-- A set of numbers as the number with those bits. -/
def bits : List Nat → Nat
  | [] => 0
  | n :: ns => Nat.pow 2 n ||| bits ns

theorem testBit_bits {ns : List Nat} {n : Nat} (h : n ∈ ns) : (bits ns).testBit n = true := by
  induction ns with
  | nil => simp at h
  | cons m ms ih =>
    rw [bits, Nat.testBit_or, Nat.pow_eq, Nat.testBit_two_pow]
    rcases List.mem_cons.mp h with rfl | h
    · simp
    · simp [ih h]

set_option maxRecDepth 10000 in
theorem lowerCodes_and_formCodes : bits lowerCodes &&& bits formCodes = 0 := by
  decide +kernel

set_option maxRecDepth 10000 in
theorem formCodes_isValidChar : formCodes.all (fun n => n.isValidChar) = true := by
  decide +kernel

theorem not_mem_lowerCodes {n : Nat} (h : n ∈ formCodes) : n ∉ lowerCodes := by
  intro hl
  have hb := Nat.testBit_and (bits lowerCodes) (bits formCodes) n
  rw [lowerCodes_and_formCodes, testBit_bits h, testBit_bits hl] at hb
  simp at hb

theorem mem_lowerCodes_of_covers {r : CaseRun} {n : Nat} (hr : r ∈ caseRuns)
    (h : r.covers n = true) : n ∈ lowerCodes := by
  have hle := CaseRun.first_le h
  refine List.mem_append_left _ (List.mem_flatMap.mpr ⟨r, hr, List.mem_map.mpr ⟨_,
    CaseRun.sub_mem_offsets h, ?_⟩⟩)
  omega

theorem upperCode_of_not_mem {n : Nat} (h : n ∉ lowerCodes) : upperCode n = [n] := by
  have hr : caseRuns.find? (·.covers n) = none :=
    List.find?_eq_none.mpr fun r hm hc => h (mem_lowerCodes_of_covers hm hc)
  have he : caseExpansions.find? (·.1 == n) = none := by
    refine List.find?_eq_none.mpr fun e hm hn => h (List.mem_append_right _ ?_)
    exact List.mem_map.mpr ⟨e, hm, by simpa using hn⟩
  simp only [upperCode, hr, he]

/-- A form is made of form characters, or the character has no form but itself. -/
theorem mem_upperCode {n m : Nat} (h : m ∈ upperCode n) :
    m ∈ formCodes ∨ m = n ∧ upperCode n = [n] := by
  unfold upperCode at h
  split at h
  · next r hr =>
    rw [List.mem_singleton] at h
    subst h
    have hc : r.covers n = true := by simpa using List.find?_some hr
    exact .inl (List.mem_append_left _ (List.mem_flatMap.mpr ⟨r, List.mem_of_find?_eq_some hr,
      List.mem_map.mpr ⟨_, CaseRun.sub_mem_offsets hc, rfl⟩⟩))
  · next hr =>
    split at h
    · next e he =>
      exact .inl (List.mem_append_right _
        (List.mem_flatMap.mpr ⟨e, List.mem_of_find?_eq_some he, h⟩))
    · next he =>
      rw [List.mem_singleton] at h
      exact .inr ⟨h, by simp only [upperCode, hr, he]⟩

theorem upperChar_of_mem_upperChar {c d : Char} (h : d ∈ upperChar c) : upperChar d = [d] := by
  obtain ⟨m, hm, rfl⟩ := List.mem_map.mp h
  have hv : m.isValidChar ∧ upperCode m = [m] := by
    rcases mem_upperCode hm with hf | ⟨rfl, hn⟩
    · have hall := List.all_eq_true.mp formCodes_isValidChar m hf
      exact ⟨by simpa using hall, upperCode_of_not_mem (not_mem_lowerCodes hf)⟩
    · exact ⟨c.valid, hn⟩
  have hc : (Char.ofNat m).toNat = m := by
    rw [Char.ofNat, dif_pos hv.1]
    rfl
  rw [upperChar, hc, hv.2]
  rfl

@[simp] theorem upper_upper (s : String) : upper (upper s) = upper s := by
  have h : ∀ ds : List Char, (∀ d ∈ ds, upperChar d = [d]) → ds.flatMap upperChar = ds := by
    intro ds hds
    induction ds with
    | nil => rfl
    | cons d ds ih =>
      rw [List.flatMap_cons, hds d (by simp), ih fun e he => hds e (by simp [he])]
      rfl
  have key : (s.toList.flatMap upperChar).flatMap upperChar = s.toList.flatMap upperChar := by
    refine h _ fun d hd => ?_
    obtain ⟨c, _, hc⟩ := List.mem_flatMap.mp hd
    exact upperChar_of_mem_upperChar hc
  simp only [upper, String.toList_ofList, key]

end Pinout.Text
