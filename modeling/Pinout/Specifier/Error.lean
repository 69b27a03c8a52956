import Pinout.Specifier.Grammar

/-!
Why a specifier cannot be resolved.
-/

namespace Pinout

inductive ResolveError
  | unrecognized (text : String)
  | numberOutOfRange (numeral : String)
  | zeroStep (grammar : Grammar)
  | indexOutOfRange (grammar : Grammar)
  | unresolved (text : String)
  | siblingNotExplicit (text sibling : String)
  | alreadyExplicit (text : String)
  | missingSibling (grammar : Grammar)
  deriving DecidableEq

namespace ResolveError

def message : ResolveError → String
  | unrecognized text => "Specifier '" ++ text ++ "' matched no known formats."
  | numberOutOfRange numeral => "Number '" ++ numeral ++ "' is too large to be used as an index."
  | zeroStep g => "Step of a " ++ g.name ++ " specifier cannot be zero."
  | indexOutOfRange g =>
    "Expanding a " ++ g.name ++ " specifier produces an index outside of the valid range."
  | unresolved text => "Specifier '" ++ text ++ "' has not been resolved."
  | siblingNotExplicit text sibling =>
    "Implicit specifier '" ++ text ++
      "' can only be resolved against an explicit specifier, got '" ++ sibling ++ "'."
  | alreadyExplicit text =>
    "Specifier '" ++ text ++ "' is explicit and cannot be resolved against a sibling."
  | missingSibling g => "A " ++ g.name ++ " specifier needs the content of an explicit sibling."

end ResolveError

end Pinout
