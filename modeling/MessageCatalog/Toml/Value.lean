import MessageCatalog.OrderedMap

/-!
TOML values.
-/

namespace MessageCatalog.Toml

inductive Value where
  | string (text : String)
  | integer (value : Int)
  | float (value : Float)
  | boolean (value : Bool)
  /-- A date, a time or both, as it was written. -/
  | dateTime (written : String)
  | array (items : List Value)
  | table (members : OrderedMap String Value)

instance : Inhabited Value := ⟨.boolean false⟩

def Value.text? : Value → Option String
  | .string text => some text
  | _ => none

end MessageCatalog.Toml
