import MessageCatalog.Key
import MessageCatalog.Text.Blank

/-!
Plural variants. A message may hold variants for none, one and many, separated by bars; with
fewer variants than asked for, the last one serves.
-/

namespace MessageCatalog.Plural

/-- Zero of either sign takes the first variant, one and minus one the second, and every other
quantity the third, infinite ones and the one that is no number among them. -/
def variantIndex (quantity : Float) : Nat :=
  if quantity == 0.0 then 0 else if quantity.abs == 1.0 then 1 else 2

/-- The variants of a message, without the blanks around them. -/
def variants (message : List Char) : List (List Char) :=
  (Text.parts (· == '|') message).map Text.trim

def select (message : String) (quantity : Float) : String :=
  match ((variants message.toList).take (variantIndex quantity + 1)).getLast? with
  | some variant => String.ofList variant
  | none => message

/-- The variant of the message that `key` leads to, or the key itself if it leads nowhere. -/
def resolve (root : Namespace) (key : String) (quantity : Float) : String :=
  match root.resolve key with
  | some message => select message quantity
  | none => key

end MessageCatalog.Plural
