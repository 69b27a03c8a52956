import Pinout.Proofs.ResolvedTexts

/-!
Indices in decimal, alone or with commas between them. What is written so resolves to an explicit
specifier of just these indices.
-/

namespace Pinout

namespace Index

theorem toList_text (i : Index) : i.text.toList = Numeral.ofNat i.toNat :=
  String.toList_ofList

theorem isDigit_of_mem_text {i : Index} {c : Char} (h : c ∈ i.text.toList) :
    c.isDigit = true := by
  rw [toList_text] at h
  exact Numeral.isDigit_of_mem_ofNat h

theorem isNumeral_text (i : Index) : Numeral.isNumeral i.text.toList = true := by
  rw [toList_text]
  exact Numeral.isNumeral_ofNat i.toNat

theorem text_ne_nil (i : Index) : i.text.toList ≠ [] := by
  intro h
  have hn := isNumeral_text i
  rw [h] at hn
  simp [Numeral.isNumeral] at hn

theorem isWord_of_mem_text {i : Index} {c : Char} (h : c ∈ i.text.toList) :
    Pattern.isWord c = true :=
  Pattern.isWord_of_isDigit (isDigit_of_mem_text h)

end Index

namespace Specifier

def decimals (content : List Index) : List String := content.map Index.text

/-- The indices in decimal, with commas between them. -/
def listing (content : List Index) : String := ",".intercalate (decimals content)

theorem spells_decimals (content : List Index) :
    List.Forall₂ Index.Spells (decimals content) content := by
  induction content with
  | nil => exact .nil
  | cons i content ih =>
    apply List.Forall₂.cons _ ih
    exact Index.spells_iff.mpr (Index.ofText?_text i)

theorem isNumeral_of_mem_decimals {content : List Index} {c : String}
    (h : c ∈ decimals content) : Numeral.isNumeral c.toList = true := by
  obtain ⟨i, _, rfl⟩ := List.mem_map.mp h
  exact Index.isNumeral_text i

theorem expand_decimals (g : Grammar) (args : List Index) (sibling : Option (List Index)) :
    g.expand (decimals args) sibling = g.indices args sibling :=
  Grammar.expand_of_spells (spells_decimals args) sibling

variable {content : List Index}

theorem writes_listing (h : content ≠ []) :
    Grammar.Writes .list (decimals content) (listing content) := by
  constructor
  · intro c hc
    exact isNumeral_of_mem_decimals hc
  · apply Grammar.write?_list_eq_some_iff.mpr
    refine ⟨?_, rfl⟩
    intro hnil
    exact h (List.map_eq_nil_iff.mp hnil)

theorem trim_listing (content : List Index) : Text.trim (listing content) = listing content := by
  have hchars : (listing content).toList =
      [','].intercalate ((decimals content).map String.toList) :=
    String.toList_intercalate
  have hnumerals : ∀ n ∈ (decimals content).map String.toList, Numeral.isNumeral n = true := by
    intro n hn
    obtain ⟨c, hc, rfl⟩ := List.mem_map.mp hn
    exact isNumeral_of_mem_decimals hc
  have hplain : ∀ c ∈ (listing content).toList, Text.isSpace c = false := by
    intro c hc
    rw [hchars] at hc
    rcases Grammar.mem_intercalate_numerals hnumerals hc with rfl | hd
    · decide
    · exact Pattern.isSpace_of_isWord (Pattern.isWord_of_isDigit hd)
  rw [Text.trim, Text.trimChars_of_not_isSpace hplain, String.ofList_toList]

theorem resolve_listing (h : content ≠ []) : resolve (listing content) =
    .ok ⟨listing content, .list, decimals content, some content⟩ := by
  have hw := writes_listing h
  rw [← trim_listing content] at hw
  rw [resolve_of_writes hw, ownContent_of_explicit rfl, expand_decimals, trim_listing]
  rfl

theorem resolve_text (i : Index) : resolve i.text = .ok ⟨i.text, .list, [i.text], some [i]⟩ := by
  have hone : listing [i] = i.text := by simp [listing, decimals]
  have h := resolve_listing (List.cons_ne_nil i [])
  rwa [hone] at h

end Specifier

end Pinout
