import MessageCatalog.Text.Digits

/-!
Decimal numbers as coefficient and power of ten, their reading from text, and their value
rounded to a double. Readers take what they know off the front of a text and return the rest.
-/

namespace MessageCatalog.Text

/-- The number `coefficient * 10 ^ exponent` with a sign, which zero has too. -/
structure Decimal where
  negative : Bool
  coefficient : Nat
  exponent : Int
  deriving DecidableEq, Repr

namespace Decimal

def ofDigits (negative : Bool) (whole fraction : List Char) (exponent : Int) : Decimal :=
  ⟨negative, digitsValue (whole ++ fraction), exponent - fraction.length⟩

/-- The power of ten just above the number: a number other than zero lies between
`10 ^ (magnitude - 1)` and `10 ^ magnitude`. -/
def magnitude (number : Decimal) : Int :=
  (Nat.toDigits 10 number.coefficient).length + number.exponent

/-- Beyond this power of ten every number is infinite as a double, and below its negative
every number is zero. -/
def magnitudeLimit : Int := 400

def absToFloat (number : Decimal) : Float :=
  if number.coefficient = 0 || number.magnitude < -magnitudeLimit then 0.0
  else if magnitudeLimit < number.magnitude then 1.0 / 0.0
  else Float.ofScientific number.coefficient (number.exponent < 0) number.exponent.natAbs

/-- The double nearest to the number, ties to even; too large a number becomes infinite and too
small a number zero, with the sign kept. -/
def toFloat (number : Decimal) : Float :=
  if number.negative then -number.absToFloat else number.absToFloat

/-- The number is too large to be a finite double. -/
def overflows (number : Decimal) : Bool := number.absToFloat.isInf

end Decimal

def takeDigits (cs : List Char) : List Char × List Char :=
  (cs.takeWhile Char.isDigit, cs.dropWhile Char.isDigit)

/-- Takes an optional sign; true stands for a minus. -/
def takeSign : List Char → Bool × List Char
  | '-' :: rest => (true, rest)
  | '+' :: rest => (false, rest)
  | cs => (false, cs)

/-- Takes an exponent mark with its signed digits; without a mark the exponent is zero. -/
def takeExponent? (cs : List Char) : Option (Int × List Char) :=
  match cs with
  | [] => some (0, [])
  | c :: rest =>
    if c = 'e' || c = 'E' then
      let (negative, unsigned) := takeSign rest
      let (digits, after) := takeDigits unsigned
      if digits.isEmpty then none
      else
        let value : Int := digitsValue digits
        some (if negative then -value else value, after)
    else some (0, cs)

/-- Reads a whole text as a decimal number: an optional sign, digits with at most one point
among them, and an optional exponent. -/
def Decimal.ofText? (text : String) : Option Decimal :=
  let (negative, unsigned) := takeSign text.toList
  let (whole, rest) := takeDigits unsigned
  let (fraction, rest) := match rest with
    | '.' :: rest => takeDigits rest
    | _ => ([], rest)
  if whole.isEmpty && fraction.isEmpty then none
  else match takeExponent? rest with
    | some (exponent, []) => some (Decimal.ofDigits negative whole fraction exponent)
    | _ => none

end MessageCatalog.Text
