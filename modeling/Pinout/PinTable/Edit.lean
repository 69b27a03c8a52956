import Pinout.PinTable.Basic

/-!
Changes of a pin table: emptying it, putting one pin in, starting again from a list of pairs.
-/

namespace Pinout.PinTable

inductive Edit
  | clear
  | insert (name location : String)
  | restart (pairs : List (String × String))

/-- The table after the change and the location that an inserted pin replaced. -/
def edit (t : PinTable) : Edit → PinTable × Option String
  | .clear => (empty, none)
  | .insert name location => t.exchange name location
  | .restart pairs => (ofPairs pairs, none)

def editAll (t : PinTable) (edits : List Edit) : PinTable :=
  edits.foldl (fun t e => (t.edit e).1) t

end Pinout.PinTable
