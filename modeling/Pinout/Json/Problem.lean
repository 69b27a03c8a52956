/-!
What can be wrong with a JSON text that should hold a mapping of texts to texts. The first problem
met from left to right is the one that counts.
-/

namespace Pinout.Json

inductive Problem
  /-- Reading failed before the text was complete. -/
  | unreadable
  | endsEarly
  | malformed
  /-- Well-formed, but not what is asked for. -/
  | unfitting
  deriving DecidableEq

/-- The problem with an end of the octets where more is needed. -/
def ending (complete : Bool) : Problem := if complete then .endsEarly else .unreadable

end Pinout.Json
