import MessageCatalog.Json.Value

/-!
Why a JSON value is no message tree: where the offending value stands and of what kind it is.
-/

namespace MessageCatalog

inductive Fault where
  /-- The root is no object. -/
  | rootNotObject (found : Json.Kind)
  /-- A locale of a fragment is given something other than an object. -/
  | localeNotObject (locale : String) (found : Json.Kind)
  /-- A value that is neither message, list nor namespace, with its dotted path. -/
  | unsupportedValue (path : String) (found : Json.Kind)
  /-- An item of the list at `path` that is neither message nor hole. -/
  | unsupportedItem (path : String) (index : Nat) (found : Json.Kind)
  deriving DecidableEq, Repr

namespace Fault

def message : Fault → String
  | rootNotObject found => "Locale fragment must be an object, found " ++ found.phrase
  | localeNotObject locale found =>
    "Locale '" ++ locale ++ "' must map to an object, found " ++ found.phrase
  | unsupportedValue path found =>
    "Unsupported value at '" ++ path ++ "': expected a string, array or object, found " ++
      found.phrase
  | unsupportedItem path index found =>
    "Unsupported list item at '" ++ path ++ "[" ++ toString index ++
      "]': expected a string or null, found " ++ found.phrase

end Fault

end MessageCatalog
