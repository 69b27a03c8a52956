/-!
Octets and the texts that they encode in UTF-8.
-/

namespace Pinout

abbrev Octets := List UInt8

namespace Octets

def ofText (s : String) : Octets := s.toByteArray.data.toList

/-- The text, if the octets are well-formed UTF-8. -/
def text? (os : Octets) : Option String := String.fromUTF8? ⟨os.toArray⟩

theorem text?_ofText (s : String) : text? (ofText s) = some s := by
  simp only [text?, ofText, Array.toArray_toList, String.fromUTF8?]
  exact dif_pos s.isValidUTF8

theorem ofText_append (s t : String) : ofText (s ++ t) = ofText s ++ ofText t := by
  simp [ofText]

def char (b : UInt8) : Char := Char.ofNat b.toNat

/-- What a reader receives, and whether it then meets the end or a failure. -/
structure Delivery where
  octets : Octets
  complete : Bool
  deriving DecidableEq

def whole (os : Octets) : Delivery := ⟨os, true⟩

end Octets

end Pinout
