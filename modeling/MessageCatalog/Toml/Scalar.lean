import MessageCatalog.Text.Decimal
import MessageCatalog.Toml.Quoted
import MessageCatalog.Toml.Value

/-!
The values of TOML that are written without quotes and brackets: booleans, integers, floats,
dates and times. Such a value is a whole token, and a token that is none of them is refused.
-/

namespace MessageCatalog.Toml

def isHexDigit (c : Char) : Bool := (Json.hexDigit? c).isSome

def isOctalDigit (c : Char) : Bool := '0' ≤ c && c ≤ '7'

def isBinaryDigit (c : Char) : Bool := c = '0' || c = '1'

/-- Single underscores stand between digits only. -/
def underscoresFit : List Char → Bool
  | [] => false
  | [c] => c ≠ '_'
  | c :: next :: rest => !(c = '_' && next = '_') && underscoresFit (next :: rest)

/-- Takes a run of digits with underscores among them and returns the digits alone. -/
def takeRun (isDigit : Char → Bool) (cs : List Char) : Option (List Char × List Char) :=
  let run := cs.takeWhile fun c => isDigit c || c = '_'
  if run.head? ≠ some '_' && underscoresFit run then
    some (run.filter (· ≠ '_'), cs.drop run.length)
  else none

/-- Integers of up to 128 bits, with or without sign, are accepted. -/
def integerFits (value : Int) : Bool := -(Int.pow 2 127) ≤ value && value < Int.pow 2 128

def integer? (value : Int) : Option Value := if integerFits value then some (.integer value) else none

/-- An integer in hexadecimal, octal or binary digits, after its mark. -/
def radixInteger? (base : Nat) (isDigit : Char → Bool) (cs : List Char) : Option Value :=
  match takeRun isDigit cs with
  | some (digits, []) =>
    integer? ((digits.filterMap Json.hexDigit?).foldl (fun value digit => base * value + digit) 0 : Nat)
  | _ => none

def takeFraction? : List Char → Option (List Char × List Char)
  | '.' :: rest => takeRun Char.isDigit rest
  | cs => some ([], cs)

def takeExponent? (cs : List Char) : Option (Option Int × List Char) :=
  match cs with
  | [] => some (none, [])
  | c :: rest =>
    if c = 'e' || c = 'E' then
      let (negative, unsigned) := Text.takeSign rest
      match takeRun Char.isDigit unsigned with
      | some (digits, after) =>
        let value : Int := Text.digitsValue digits
        some (some (if negative then -value else value), after)
      | none => none
    else some (none, cs)

/-- A decimal integer or float. The digits before the point have no leading zero, and a float is
finite as a double. -/
def decimal? (token : List Char) : Option Value :=
  let (negative, unsigned) := Text.takeSign token
  match takeRun Char.isDigit unsigned with
  | none => none
  | some (whole, rest) =>
    if whole.head? = some '0' && whole.length ≠ 1 then none
    else if rest.isEmpty then
      let value : Int := Text.digitsValue whole
      integer? (if negative then -value else value)
    else match takeFraction? rest with
      | none => none
      | some (fraction, rest) =>
        match takeExponent? rest with
        | some (exponent, []) =>
          let number := Text.Decimal.ofDigits negative whole fraction (exponent.getD 0)
          if number.overflows then none else some (.float number.toFloat)
        | _ => none

def specialFloat? (negative : Bool) (word : List Char) : Option Value :=
  if word = ['i', 'n', 'f'] then some (.float (if negative then -1.0 / 0.0 else 1.0 / 0.0))
  else if word = ['n', 'a', 'n'] then some (.float (0.0 / 0.0))
  else none

def takeNumber? (digits : Nat) (cs : List Char) : Option (Nat × List Char) :=
  let taken := cs.take digits
  if taken.length = digits && taken.all Char.isDigit then
    some (Text.digitsValue taken, cs.drop digits)
  else none

def expect? (c : Char) : List Char → Option (List Char)
  | [] => none
  | first :: rest => if first = c then some rest else none

def isLeapYear (year : Nat) : Bool := year % 4 = 0 && (year % 100 ≠ 0 || year % 400 = 0)

def daysInMonth (year month : Nat) : Nat :=
  if month = 2 then (if isLeapYear year then 29 else 28)
  else if month = 4 || month = 6 || month = 9 || month = 11 then 30
  else 31

def takeDate? (cs : List Char) : Option (List Char) := do
  let (year, rest) ← takeNumber? 4 cs
  let rest ← expect? '-' rest
  let (month, rest) ← takeNumber? 2 rest
  let rest ← expect? '-' rest
  let (day, rest) ← takeNumber? 2 rest
  if 1 ≤ month && month ≤ 12 && 1 ≤ day && day ≤ daysInMonth year month then some rest else none

def takeSecondFraction? : List Char → Option (List Char)
  | '.' :: rest =>
    let (digits, after) := Text.takeDigits rest
    if digits.isEmpty then none else some after
  | cs => some cs

/-- Takes a time of day; the seconds may be left out, and may be 60. -/
def takeTime? (cs : List Char) : Option (List Char) := do
  let (hour, rest) ← takeNumber? 2 cs
  let rest ← expect? ':' rest
  let (minute, rest) ← takeNumber? 2 rest
  if 23 < hour || 59 < minute then none
  else match rest with
    | ':' :: rest => do
      let (second, rest) ← takeNumber? 2 rest
      if 60 < second then none else takeSecondFraction? rest
    | _ => some rest

def takeOffset? : List Char → Option (List Char)
  | [] => some []
  | c :: rest =>
    if c = 'Z' || c = 'z' then some rest
    else if c = '+' || c = '-' then do
      let (hour, rest) ← takeNumber? 2 rest
      let rest ← expect? ':' rest
      let (minute, rest) ← takeNumber? 2 rest
      if 23 < hour || 59 < minute then none else some rest
    else none

/-- The token is a date, a time, or a date and a time with or without offset. -/
def isDateTime (token : List Char) : Bool :=
  match takeDate? token with
  | some [] => true
  | some (mark :: rest) =>
    (mark = 'T' || mark = 't' || mark = ' ') && ((takeTime? rest).bind takeOffset?) == some []
  | none => takeTime? token == some []

def isTokenChar (c : Char) : Bool :=
  c.isAlphanum || c = '_' || c = '+' || c = '-' || c = '.' || c = ':'

/-- Takes the longest token; one blank may stand between a date and a time. -/
def takeToken (cs : List Char) : List Char × List Char :=
  let token := cs.takeWhile isTokenChar
  let rest := cs.dropWhile isTokenChar
  match rest with
  | ' ' :: digit :: more =>
    if takeDate? token == some [] && digit.isDigit then
      (token ++ ' ' :: (digit :: more).takeWhile isTokenChar, (digit :: more).dropWhile isTokenChar)
    else (token, rest)
  | _ => (token, rest)

def scalar? (token : List Char) : Option Value :=
  match token with
  | ['t', 'r', 'u', 'e'] => some (.boolean true)
  | ['f', 'a', 'l', 's', 'e'] => some (.boolean false)
  | '0' :: 'x' :: digits => radixInteger? 16 isHexDigit digits
  | '0' :: 'o' :: digits => radixInteger? 8 isOctalDigit digits
  | '0' :: 'b' :: digits => radixInteger? 2 isBinaryDigit digits
  | _ =>
    let (negative, unsigned) := Text.takeSign token
    if isDateTime token then some (.dateTime (String.ofList token))
    else (specialFloat? negative unsigned).or (decimal? token)

end MessageCatalog.Toml
