import MessageCatalog.Json.Number
import MessageCatalog.Json.Value

/-!
Reading JSON text, strictly by the grammar of RFC 8259: blanks are space, tab, line feed and
carriage return; nothing but blanks may follow the value; surrogate escapes come in pairs; a
number must be in the range of doubles; arrays and objects nest at most `maxDepth` deep. A
repeated key of an object keeps its first position and takes the last value.
-/

namespace MessageCatalog.Json

def maxDepth : Nat := 127

def isBlank (c : Char) : Bool := c = ' ' || c = '\t' || c = '\n' || c = '\r'

def skipBlanks (cs : List Char) : List Char := cs.dropWhile isBlank

def after? : List Char → List Char → Option (List Char)
  | [], cs => some cs
  | _ :: _, [] => none
  | expected :: word, c :: rest => if c = expected then after? word rest else none

def hexDigit? (c : Char) : Option Nat :=
  if '0' ≤ c && c ≤ '9' then some (c.toNat - '0'.toNat)
  else if 'a' ≤ c && c ≤ 'f' then some (c.toNat - 'a'.toNat + 10)
  else if 'A' ≤ c && c ≤ 'F' then some (c.toNat - 'A'.toNat + 10)
  else none

def hexUnit? (a b c d : Char) : Option Nat := do
  let high ← hexDigit? a
  let upper ← hexDigit? b
  let lower ← hexDigit? c
  let low ← hexDigit? d
  return ((high * 16 + upper) * 16 + lower) * 16 + low

def isLeadingSurrogate (unit : Nat) : Bool := 0xD800 ≤ unit && unit ≤ 0xDBFF

def isTrailingSurrogate (unit : Nat) : Bool := 0xDC00 ≤ unit && unit ≤ 0xDFFF

/-- The character beyond the first plane that a pair of surrogates stands for. -/
def pairedChar (leading trailing : Nat) : Char :=
  Char.ofNat (0x10000 + (leading - 0xD800) * 0x400 + (trailing - 0xDC00))

def simpleEscape? (letter : Char) : Option Char :=
  if letter = '"' || letter = '\\' || letter = '/' then some letter
  else if letter = 'b' then some '\x08'
  else if letter = 't' then some '\t'
  else if letter = 'n' then some '\n'
  else if letter = 'f' then some '\x0c'
  else if letter = 'r' then some '\r'
  else none

/-- Reads a string after its opening quote, up to and with the closing one. -/
def readString : List Char → Option (List Char × List Char)
  | [] => none
  | c :: rest =>
    if c = '"' then some ([], rest)
    else if c = '\\' then
      match rest with
      | 'u' :: h1 :: h2 :: h3 :: h4 :: rest =>
        match hexUnit? h1 h2 h3 h4 with
        | none => none
        | some unit =>
          if isTrailingSurrogate unit then none
          else if isLeadingSurrogate unit then
            match rest with
            | '\\' :: 'u' :: l1 :: l2 :: l3 :: l4 :: rest =>
              match hexUnit? l1 l2 l3 l4 with
              | none => none
              | some second =>
                if isTrailingSurrogate second then
                  (readString rest).map fun (text, after) => (pairedChar unit second :: text, after)
                else none
            | _ => none
          else (readString rest).map fun (text, after) => (Char.ofNat unit :: text, after)
      | letter :: rest =>
        match simpleEscape? letter with
        | none => none
        | some meant => (readString rest).map fun (text, after) => (meant :: text, after)
      | [] => none
    else if c.toNat < 0x20 then none
    else (readString rest).map fun (text, after) => (c :: text, after)

mutual

/-- Reads one value. `room` is how many levels of nesting are left; `fuel` bounds the recursion
and never runs out when it exceeds twice the length of the text. -/
def readValue : (fuel room : Nat) → List Char → Option (Value × List Char)
  | 0, _, _ => none
  | fuel + 1, room, cs =>
    match skipBlanks cs with
    | [] => none
    | c :: rest =>
      if c = '"' then (readString rest).map fun (text, after) => (.string (String.ofList text), after)
      else if c = '[' then
        match room with
        | 0 => none
        | room + 1 =>
          match skipBlanks rest with
          | ']' :: after => some (.array [], after)
          | _ => (readItems fuel room rest).map fun (items, after) => (.array items, after)
      else if c = '{' then
        match room with
        | 0 => none
        | room + 1 =>
          match skipBlanks rest with
          | '}' :: after => some (.object .empty, after)
          | _ => (readMembers fuel room rest).map fun (members, after) =>
              (.object (OrderedMap.ofList members), after)
      else if c = 'n' then (after? ['u', 'l', 'l'] rest).map fun after => (.null, after)
      else if c = 't' then (after? ['r', 'u', 'e'] rest).map fun after => (.boolean true, after)
      else if c = 'f' then (after? ['a', 'l', 's', 'e'] rest).map fun after => (.boolean false, after)
      else (readNumber (c :: rest)).map fun (number, after) => (.number number, after)

/-- Reads the items of an array, at least one, up to and with the closing bracket. -/
def readItems : (fuel room : Nat) → List Char → Option (List Value × List Char)
  | 0, _, _ => none
  | fuel + 1, room, cs =>
    match readValue fuel room cs with
    | none => none
    | some (item, rest) =>
      match skipBlanks rest with
      | ',' :: more => (readItems fuel room more).map fun (items, after) => (item :: items, after)
      | ']' :: after => some ([item], after)
      | _ => none

/-- Reads the members of an object, at least one, up to and with the closing brace. -/
def readMembers : (fuel room : Nat) → List Char → Option (List (String × Value) × List Char)
  | 0, _, _ => none
  | fuel + 1, room, cs =>
    match skipBlanks cs with
    | '"' :: quoted =>
      match readString quoted with
      | none => none
      | some (key, rest) =>
        match skipBlanks rest with
        | ':' :: rest =>
          match readValue fuel room rest with
          | none => none
          | some (value, rest) =>
            match skipBlanks rest with
            | ',' :: more => (readMembers fuel room more).map fun (members, after) =>
                ((String.ofList key, value) :: members, after)
            | '}' :: after => some ([(String.ofList key, value)], after)
            | _ => none
        | _ => none
    | _ => none

end

def Value.readFront? (text : String) : Option (Value × List Char) :=
  readValue (2 * text.toList.length + 2) maxDepth text.toList

def Value.parse? (text : String) : Option Value :=
  match Value.readFront? text with
  | some (value, rest) => if (skipBlanks rest).isEmpty then some value else none
  | none => none

/-- Why a text cannot be decoded: it is no JSON, or its value was refused. -/
inductive TextError (ε : Type) where
  | malformed
  | refused (cause : ε)

/-- Reads a value and converts it at once, and only then looks at what follows: a value that is
refused is reported even where the text goes on after it. -/
def decode {α ε : Type} (convert : Value → Except ε α) (text : String) : Except (TextError ε) α :=
  match Value.readFront? text with
  | none => .error .malformed
  | some (value, rest) =>
    match convert value with
    | .error cause => .error (.refused cause)
    | .ok result => if (skipBlanks rest).isEmpty then .ok result else .error .malformed

end MessageCatalog.Json
