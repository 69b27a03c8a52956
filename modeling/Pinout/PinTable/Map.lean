import Pinout.PinTable.Basic

/-!
Maps of names to locations, which pin tables are made from. A map has no order of its own, so the
order in which its pairs come out is a parameter.
-/

namespace Pinout

/-- Locations by names, where every letter of a name counts. -/
abbrev PinMap := Std.ExtTreeMap String String

namespace PinMap

/-- Of several pairs with exactly the same name the last counts. -/
def ofPairs (pairs : List (String × String)) : PinMap := .ofList pairs

/-- An order in which the pairs of each map come out. -/
structure Order where
  list : PinMap → List (String × String)
  perm : ∀ m, (list m).Perm m.toList

def Order.byName : Order := ⟨fun m => m.toList, fun _ => .refl _⟩

end PinMap

/-- The table of a map, one pair put in after the other. -/
def PinTable.ofMap (order : PinMap.Order) (m : PinMap) : PinTable := ofPairs (order.list m)

end Pinout
