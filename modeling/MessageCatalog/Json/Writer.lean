import MessageCatalog.Json.Value

/-!
Compact JSON text: no blanks, the members of an object in order, and in strings only quote,
backslash and the control characters below U+0020 escaped.
-/

namespace MessageCatalog.Json

def hexDigitChar (digit : Nat) : Char :=
  if digit < 10 then Char.ofNat ('0'.toNat + digit) else Char.ofNat ('a'.toNat + (digit - 10))

def escapeChar (c : Char) : List Char :=
  if c = '"' then ['\\', '"']
  else if c = '\\' then ['\\', '\\']
  else if c = '\x08' then ['\\', 'b']
  else if c = '\t' then ['\\', 't']
  else if c = '\n' then ['\\', 'n']
  else if c = '\x0c' then ['\\', 'f']
  else if c = '\r' then ['\\', 'r']
  else if c.toNat < 0x20 then
    ['\\', 'u', '0', '0', hexDigitChar (c.toNat / 16), hexDigitChar (c.toNat % 16)]
  else [c]

def quote (text : String) : List Char := '"' :: text.toList.flatMap escapeChar ++ ['"']

def numberText (number : Text.Decimal) : List Char :=
  let sign := if number.negative then ['-'] else []
  let power := if number.exponent = 0 then [] else 'e' :: (toString number.exponent).toList
  sign ++ Nat.toDigits 10 number.coefficient ++ power

mutual

def compactChars : Value → List Char
  | .null => ['n', 'u', 'l', 'l']
  | .boolean true => ['t', 'r', 'u', 'e']
  | .boolean false => ['f', 'a', 'l', 's', 'e']
  | .number number => numberText number
  | .string text => quote text
  | .array items => '[' :: compactItems items
  | .object ⟨members⟩ => '{' :: compactMembers members

def compactItems : List Value → List Char
  | [] => [']']
  | [item] => compactChars item ++ [']']
  | item :: second :: others => compactChars item ++ ',' :: compactItems (second :: others)

def compactMembers : List (String × Value) → List Char
  | [] => ['}']
  | [(key, value)] => quote key ++ ':' :: compactChars value ++ ['}']
  | (key, value) :: second :: others =>
    quote key ++ ':' :: compactChars value ++ ',' :: compactMembers (second :: others)

end

def Value.compact (value : Value) : String := String.ofList (compactChars value)

end MessageCatalog.Json
