import MinangScript.Decimal.Binary64

/-! # Numerals

A numeral is an unsigned decimal number as it is written: digits, perhaps a point and more digits,
perhaps an exponent. `Numeral.scan?` takes the longest numeral at the front of a text; a marker of
an exponent that no digit follows is left where it stands.
-/

namespace MinangScript

/-- Splits off the decimal digits in front. -/
def digitRun (text : List Char) : List Char × List Char :=
  (text.takeWhile Char.isDigit, text.dropWhile Char.isDigit)

/-- The number that a run of decimal digits denotes. -/
def digitsValue (digits : List Char) : Nat :=
  digits.foldl (fun n c => 10 * n + (c.toNat - '0'.toNat)) 0

/-- Splits off a sign; the flag says whether it was a minus. -/
def takeSign : List Char → Bool × List Char
  | '+' :: rest => (false, rest)
  | '-' :: rest => (true, rest)
  | rest => (false, rest)

/-- An unsigned decimal number: digits before and after the point, and a power of ten. -/
structure Numeral where
  whole : List Char
  fraction : List Char
  exponent : Int
  deriving Repr, DecidableEq

namespace Numeral

/-- The exponent in front of a text, zero if there is none. -/
def scanExponent : List Char → Int × List Char
  | mark :: rest =>
    if mark = 'e' ∨ mark = 'E' then
      let (negative, afterSign) := takeSign rest
      match digitRun afterSign with
      | ([], _) => (0, mark :: rest)
      | (digits, afterDigits) =>
        let size : Int := digitsValue digits
        (if negative then -size else size, afterDigits)
    else (0, mark :: rest)
  | [] => (0, [])

/-- The fraction in front of a text: a point and the digits after it. -/
def scanFraction : List Char → List Char × List Char
  | '.' :: rest => digitRun rest
  | rest => ([], rest)

/-- The longest numeral in front of a text. At least one digit must stand before the exponent. -/
def scan? (text : List Char) : Option (Numeral × List Char) :=
  let (whole, afterWhole) := digitRun text
  let (fraction, afterFraction) := scanFraction afterWhole
  if whole.isEmpty && fraction.isEmpty then none
  else
    let (exponent, rest) := scanExponent afterFraction
    some (⟨whole, fraction, exponent⟩, rest)

/-- The bit pattern of the double nearest to the numeral. -/
def bits (n : Numeral) : Nat :=
  Binary64.nearestDecimal (digitsValue (n.whole ++ n.fraction))
    (n.exponent - (n.fraction.length : Int))

/-- The double nearest to the numeral, negated if asked for. -/
def toFloat (n : Numeral) (negative : Bool) : Float :=
  Binary64.toFloat negative n.bits

end Numeral

end MinangScript
