import MinangScript.Decimal.Shortest

/-! # Layouts of number text

A layout is what a format decides about its numbers once the digits are known: which magnitudes
are written out in full, whether a whole number keeps a fraction, how an exponent is signed.
-/

namespace MinangScript

/-- The decisions of a number format. -/
structure Layout where
  /-- The least power of ten of a leading digit that is written out in full. -/
  plainFrom : Int
  /-- The first power of ten that is no longer written out in full. -/
  plainBelow : Int
  /-- Whether a whole number written out in full ends in `.0`. -/
  wholeFraction : Bool
  /-- Whether a positive exponent carries a plus sign. -/
  exponentPlus : Bool
  /-- Which of two equally near decimals is written. -/
  tie : Tie
  zero : String
  negativeZero : String
  /-- The text of what is not a number. -/
  nan : String
  infinity : String
  deriving Repr

namespace Layout

/-- Digits written out in full; the first digit stands at `10 ^ leading`. -/
def plain (layout : Layout) (digits : List Char) (leading : Int) : List Char :=
  if leading < 0 then
    '0' :: '.' :: (List.replicate (-leading - 1).toNat '0' ++ digits)
  else
    let whole := leading.toNat + 1
    if digits.length ≤ whole then
      digits ++ List.replicate (whole - digits.length) '0'
        ++ (if layout.wholeFraction then ['.', '0'] else [])
    else digits.take whole ++ '.' :: digits.drop whole

/-- Digits with an exponent: one digit, a point if more follow, and the power of ten. -/
def scientific (layout : Layout) (digits : List Char) (leading : Int) : List Char :=
  let mantissa :=
    match digits with
    | first :: second :: rest => first :: '.' :: second :: rest
    | few => few
  let sign := if leading < 0 then ['-'] else if layout.exponentPlus then ['+'] else []
  mantissa ++ 'e' :: sign ++ Nat.toDigits 10 leading.natAbs

/-- The text of a decimal that is not zero. -/
def decimal (layout : Layout) (d : Decimal) : List Char :=
  if layout.plainFrom ≤ d.leading ∧ d.leading < layout.plainBelow then
    layout.plain d.digitText d.leading
  else layout.scientific d.digitText d.leading

def text (layout : Layout) : Binary64 → String
  | .nan => layout.nan
  | .infinite negative => if negative then "-" ++ layout.infinity else layout.infinity
  | .finite negative significand exponent =>
    if significand = 0 then (if negative then layout.negativeZero else layout.zero)
    else
      let body := String.ofList (layout.decimal (Decimal.shortest layout.tie significand exponent))
      if negative then "-" ++ body else body

end Layout

end MinangScript
