import MessageCatalog.Json.Reader

/-!
The strings of TOML 1.1: basic and literal ones on one line, and both kinds over several lines.
Readers take a string off the front of a text, after its opening quotes, and return the rest.
-/

namespace MessageCatalog.Toml

def isSpace (c : Char) : Bool := c = ' ' || c = '\t'

/-- A character that may stand as it is in strings and comments: any but control characters,
of which only the tab is allowed. -/
def isPlain (c : Char) : Bool := c = '\t' || (0x20 ≤ c.toNat && c.toNat ≠ 0x7F)

def skipSpaces (cs : List Char) : List Char := cs.dropWhile isSpace

/-- Takes a line break; a carriage return alone is none. -/
def lineBreak? : List Char → Option (List Char)
  | '\n' :: rest => some rest
  | '\r' :: '\n' :: rest => some rest
  | _ => none

/-- The character whose code point is written with so many hexadecimal digits; surrogates are
no characters. -/
def hexEscape? (digits : Nat) (cs : List Char) : Option (Char × List Char) :=
  match (cs.take digits).mapM Json.hexDigit? with
  | none => none
  | some values =>
    let code := values.foldl (fun code value => 16 * code + value) 0
    if values.length = digits && code.isValidChar then some (Char.ofNat code, cs.drop digits)
    else none

def readEscape? : List Char → Option (Char × List Char)
  | [] => none
  | letter :: rest =>
    if letter = '"' || letter = '\\' then some (letter, rest)
    else if letter = 'b' then some ('\x08', rest)
    else if letter = 't' then some ('\t', rest)
    else if letter = 'n' then some ('\n', rest)
    else if letter = 'f' then some ('\x0c', rest)
    else if letter = 'r' then some ('\r', rest)
    else if letter = 'e' then some ('\x1b', rest)
    else if letter = 'x' then hexEscape? 2 rest
    else if letter = 'u' then hexEscape? 4 rest
    else if letter = 'U' then hexEscape? 8 rest
    else none

def withChar (c : Char) (found : Option (List Char × List Char)) :
    Option (List Char × List Char) :=
  found.map fun (text, rest) => (c :: text, rest)

def readLiteral : List Char → Option (List Char × List Char)
  | [] => none
  | c :: rest =>
    if c = '\'' then some ([], rest)
    else if isPlain c then withChar c (readLiteral rest)
    else none

/-- The rest of a basic string on one line; the fuel is at least the length of the text. -/
def readBasic : (fuel : Nat) → List Char → Option (List Char × List Char)
  | 0, _ => none
  | fuel + 1, cs =>
    match cs with
    | [] => none
    | c :: rest =>
      if c = '"' then some ([], rest)
      else if c = '\\' then
        match readEscape? rest with
        | some (meant, after) => withChar meant (readBasic fuel after)
        | none => none
      else if isPlain c then withChar c (readBasic fuel rest)
      else none

/-- A run of quotes in a string over several lines: fewer than three belong to the text, three
end it, and one or two more before those still belong to it. -/
def quoteRun (quote : Char) (cs : List Char) : Nat := (cs.takeWhile (· = quote)).length

/-- Skips spaces and line breaks after a backslash at the end of a line. -/
def skipContinuation : (fuel : Nat) → List Char → List Char
  | 0, cs => cs
  | fuel + 1, cs =>
    let trimmed := skipSpaces cs
    match lineBreak? trimmed with
    | some rest => skipContinuation fuel rest
    | none => trimmed

/-- The rest of a string over several lines, in which `escapes` says whether a backslash is
special. Line breaks belong to the text as they are written. The fuel is at least the length of
the text. -/
def readLines (quote : Char) (escapes : Bool) :
    (fuel : Nat) → List Char → Option (List Char × List Char)
  | 0, _ => none
  | fuel + 1, cs =>
    match cs with
    | [] => none
    | c :: rest =>
      if c = quote then
        let run := quoteRun quote cs
        if run < 3 then withChar quote (readLines quote escapes fuel rest)
        else if run ≤ 5 then some (List.replicate (run - 3) quote, cs.drop run)
        else none
      else if c = '\\' && escapes then
        match lineBreak? (skipSpaces rest) with
        | some after => readLines quote escapes fuel (skipContinuation fuel after)
        | none =>
          match readEscape? rest with
          | some (meant, after) => withChar meant (readLines quote escapes fuel after)
          | none => none
      else if isPlain c || (lineBreak? cs).isSome then withChar c (readLines quote escapes fuel rest)
      else none

/-- A line break right after the opening quotes is no part of the text. -/
def skipFirstBreak (cs : List Char) : List Char := (lineBreak? cs).getD cs

/-- Reads a string on one line, with its opening quote; none stands for no string at all. -/
def readShortString? (cs : List Char) : Option (List Char × List Char) :=
  match cs with
  | '"' :: rest => readBasic (rest.length + 1) rest
  | '\'' :: rest => readLiteral rest
  | _ => none

def readString? (cs : List Char) : Option (List Char × List Char) :=
  match cs with
  | '"' :: '"' :: '"' :: rest => readLines '"' true (rest.length + 1) (skipFirstBreak rest)
  | '\'' :: '\'' :: '\'' :: rest => readLines '\'' false (rest.length + 1) (skipFirstBreak rest)
  | _ => readShortString? cs

end MessageCatalog.Toml
