import MessageCatalog.OrderedMap
import MessageCatalog.Text.Decimal

/-!
JSON values with the members of an object in order, and the kinds of value that error
messages name.
-/

namespace MessageCatalog.Json

inductive Value where
  | null
  | boolean (value : Bool)
  | number (value : Text.Decimal)
  | string (text : String)
  | array (items : List Value)
  | object (members : OrderedMap String Value)

inductive Kind where
  | null
  | boolean
  | number
  | string
  | array
  | object
  deriving DecidableEq, Repr

def Kind.phrase : Kind → String
  | .null => "null"
  | .boolean => "a boolean"
  | .number => "a number"
  | .string => "a string"
  | .array => "an array"
  | .object => "an object"

def Value.kind : Value → Kind
  | .null => .null
  | .boolean _ => .boolean
  | .number _ => .number
  | .string _ => .string
  | .array _ => .array
  | .object _ => .object

/-- Only objects can hold messages by name. -/
def Value.isObject (value : Value) : Bool := value.kind = .object

instance : Inhabited Value := ⟨.null⟩

end MessageCatalog.Json
