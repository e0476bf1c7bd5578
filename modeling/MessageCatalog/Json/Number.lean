import MessageCatalog.Text.Decimal

/-!
Numbers in JSON text, and the range they must lie in. A number counts as too large when its
leading digits, as many as fit in 64 bits, times the power of ten that remains, is infinite in
double arithmetic. Numbers too small for a double are fine.
-/

namespace MessageCatalog.Json

/-- Appends digits to a significand as long as it fits in 64 bits; the rest is returned. -/
def absorbDigits (significand : Nat) : List Char → Nat × List Char
  | [] => (significand, [])
  | digit :: rest =>
    let longer := 10 * significand + (digit.toNat - '0'.toNat)
    if longer < 2 ^ 64 then absorbDigits longer rest else (significand, digit :: rest)

def maxPowerOfTen : Int := 308

/-- The product of the leading digits and the power of ten that remains is infinite. -/
def outOfRange (whole fraction : List Char) (exponent : Int) : Bool :=
  let (significand, extra) := absorbDigits 0 whole
  let (significand, unused) := absorbDigits significand fraction
  let power := exponent + extra.length - (fraction.length - unused.length : Nat)
  if power < 0 then false
  else if maxPowerOfTen < power then significand ≠ 0
  else (significand.toUInt64.toFloat * Float.ofScientific 1 false power.natAbs).isInf

/-- Reads a number: an optional minus, digits without a leading zero, an optional fraction and
an optional exponent. -/
def readNumber (cs : List Char) : Option (Text.Decimal × List Char) :=
  let (negative, unsigned) := match cs with
    | '-' :: rest => (true, rest)
    | _ => (false, cs)
  let (whole, rest) := Text.takeDigits unsigned
  let (pointed, fraction, rest) := match rest with
    | '.' :: rest => (true, Text.takeDigits rest)
    | _ => (false, [], rest)
  if whole.isEmpty || (whole.head? = some '0' && whole.length ≠ 1) || (pointed && fraction.isEmpty)
  then none
  else match Text.takeExponent? rest with
    | none => none
    | some (exponent, rest) =>
      if outOfRange whole fraction exponent then none
      else some (Text.Decimal.ofDigits negative whole fraction exponent, rest)

end MessageCatalog.Json
