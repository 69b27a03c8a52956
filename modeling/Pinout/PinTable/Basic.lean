import Pinout.Text.Upper
import Std.Data.ExtTreeMap

/-!
Pin tables: the location of every pin, by its name. Names are the same if they are the same in
upper case, and the last location given to a name counts. Tables that answer every question alike
are equal.
-/

namespace Pinout

structure PinTable where
  /-- Locations by names in upper case -/
  pins : Std.ExtTreeMap String String
  upper_names : ∀ name ∈ pins, Text.upper name = name

namespace PinTable

theorem ext_pins {t u : PinTable} (h : t.pins = u.pins) : t = u := by
  cases t
  cases u
  simp_all

instance : DecidableEq PinTable := fun t u =>
  decidable_of_iff (t.pins = u.pins) ⟨ext_pins, fun h => h ▸ rfl⟩

def empty : PinTable := ⟨∅, by simp⟩

instance : Inhabited PinTable := ⟨empty⟩

def insert (t : PinTable) (name location : String) : PinTable where
  pins := t.pins.insert (Text.upper name) location
  upper_names := by
    intro n hn
    rcases Std.ExtTreeMap.mem_insert.mp hn with h | h
    · rw [← Std.LawfulEqCmp.eq_of_compare h, Text.upper_upper]
    · exact t.upper_names n h

def lookup (t : PinTable) (name : String) : Option String := t.pins[Text.upper name]?

/-- Inserts a pair; the answer is the location that it replaces. -/
def exchange (t : PinTable) (name location : String) : PinTable × Option String :=
  (t.insert name location, t.pins[Text.upper name]?)

def size (t : PinTable) : Nat := t.pins.size

def isEmpty (t : PinTable) : Bool := t.pins.isEmpty

/-- The table of all the pairs; of several for one name the last counts. -/
def ofPairs (pairs : List (String × String)) : PinTable where
  pins := .ofList (pairs.map fun p => (Text.upper p.1, p.2))
  upper_names := by
    intro n hn
    rw [Std.ExtTreeMap.mem_ofList, List.contains_iff_mem] at hn
    obtain ⟨q, hq, rfl⟩ := List.mem_map.mp hn
    obtain ⟨p, _, rfl⟩ := List.mem_map.mp hq
    exact Text.upper_upper p.1

theorem lookup_empty (name : String) : empty.lookup name = none := by
  simp [empty, lookup]

theorem lookup_insert (t : PinTable) (name location query : String) :
    (t.insert name location).lookup query =
      if Text.upper name = Text.upper query then some location else t.lookup query := by
  simp only [lookup, insert, Std.ExtTreeMap.getElem?_insert, Std.LawfulEqCmp.compare_eq_iff_eq]

theorem lookup_upper (t : PinTable) (name : String) :
    t.lookup (Text.upper name) = t.lookup name := by
  simp [lookup]

theorem ext_lookup {t u : PinTable} (h : ∀ name, t.lookup name = u.lookup name) : t = u := by
  refine ext_pins (Std.ExtTreeMap.ext_getElem? fun k => ?_)
  by_cases hk : Text.upper k = k
  · simpa [lookup, hk] using h k
  · rw [Std.ExtTreeMap.getElem?_eq_none fun hm => hk (t.upper_names k hm),
      Std.ExtTreeMap.getElem?_eq_none fun hm => hk (u.upper_names k hm)]

end PinTable

end Pinout
